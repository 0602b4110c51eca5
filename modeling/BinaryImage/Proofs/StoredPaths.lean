import BinaryImage.Proofs.Agreement
import BinaryImage.SearchPath
import Mathlib.Data.List.DropRight

/-!
Search paths that are stored and read again. A colon ends an entry wherever it stands, and `./` is
another way to say that a path is relative, so an entry with the one is divided and an entry with
the other loses it. All others come back as they are.
-/

namespace BinaryImage

namespace Text

variable {text : List Char}

structure Trimmed (text : List Char) : Prop where
  starts : ∀ c ∈ text.head?, isBlank c = false
  ends : ∀ c ∈ text.getLast?, isBlank c = false

theorem dropWhile_of_head {drop : Char → Bool} (kept : ∀ c ∈ text.head?, drop c = false) :
    text.dropWhile drop = text := by
  cases text with
  | nil => rfl
  | cons c rest => rw [List.dropWhile_cons, kept c rfl, if_neg Bool.false_ne_true]

theorem head_of_dropWhile (drop : Char → Bool) (text : List Char) :
    ∀ c ∈ (text.dropWhile drop).head?, drop c = false := by
  intro c first
  have stops := List.head?_dropWhile_not drop text
  rw [Option.mem_def.mp first] at stops
  exact stops

theorem trim_of_trimmed (trimmed : Trimmed text) : trim text = text := by
  have back : text.reverse.dropWhile isBlank = text.reverse := by
    apply dropWhile_of_head
    rw [List.head?_reverse]
    exact trimmed.ends
  rw [trim, dropWhile_of_head trimmed.starts, back, List.reverse_reverse]

theorem trim_begins (text : List Char) : trim text <+: text.dropWhile isBlank :=
  List.rdropWhile_prefix isBlank (text.dropWhile isBlank)

theorem trimmed_trim (text : List Char) : Trimmed (trim text) := by
  constructor
  case starts =>
    obtain ⟨rest, whole⟩ := trim_begins text
    intro c first
    apply head_of_dropWhile isBlank text c
    rw [← whole, List.head?_append, Option.mem_def.mp first]
    rfl
  case ends =>
    intro c last
    rw [trim, List.getLast?_reverse] at last
    exact head_of_dropWhile isBlank _ c last

theorem mem_of_mem_trim {c : Char} (member : c ∈ trim text) : c ∈ text :=
  (List.dropWhile_sublist isBlank).subset ((trim_begins text).subset member)

end Text

namespace SearchPath

section Pieces

variable {text item : List Char}

theorem pieces_eq_splitOn (text : List Char) : pieces text = text.splitOn ':' := by
  induction text with
  | nil => rfl
  | cons c rest ih =>
    rw [pieces, ih, List.splitOn_cons_eq_if_modifyHead]
    by_cases colon : c = ':'
    · rw [if_pos colon, if_pos (beq_iff_eq.mpr colon)]
    · rw [if_neg colon, if_neg (mt beq_iff_eq.mp colon)]
      cases split : rest.splitOn ':' with
      | nil => exact absurd split (List.splitOn_ne_nil _ _)
      | cons first others => rfl

theorem undivided_of_mem_pieces (member : item ∈ pieces text) : ':' ∉ item := by
  rw [pieces_eq_splitOn] at member
  induction text generalizing item with
  | nil =>
    rw [List.splitOn_nil, List.mem_singleton] at member
    rw [member]
    exact List.not_mem_nil
  | cons c rest ih =>
    rw [List.splitOn_cons_eq_if_modifyHead] at member
    split at member
    · rcases List.mem_cons.mp member with rfl | later
      · exact List.not_mem_nil
      · exact ih later
    · next other =>
      cases split : rest.splitOn ':' with
      | nil => exact absurd split (List.splitOn_ne_nil _ _)
      | cons first others =>
        rw [split] at member ih
        rcases List.mem_cons.mp member with rfl | later
        · have clean := ih List.mem_cons_self
          rw [beq_iff_eq] at other
          simp [clean, Ne.symm other]
        · exact ih (List.mem_cons_of_mem _ later)

end Pieces

namespace Entry

/-- A path that can be stored: it has no colon, and ends in no blank. -/
structure Storable (entry : Entry) : Prop where
  undivided : ':' ∉ entry.path.toList
  ends : ∃ c, entry.path.toList.getLast? = some c ∧ Text.isBlank c = false

/-- What is read back of an entry that was stored: `./` and the slashes behind it are left out. -/
def reread (entry : Entry) : Entry :=
  match entry.path.toList with
  | '.' :: '/' :: rest =>
    match rest.dropWhile (· == '/') with
    | [] => ⟨"."⟩
    | path => ⟨String.ofList path⟩
  | _ => entry

variable {entry : Entry}

theorem eq_of_path {path : List Char} (same : entry.path.toList = path) :
    entry = ⟨String.ofList path⟩ := by
  rw [← same, String.ofList_toList]

theorem isRelative_eq_false_iff :
    entry.isRelative = false ↔ ∃ rest, entry.path.toList = '/' :: rest := by
  rw [isRelative, bne_eq_false_iff_eq, List.head?_eq_some_iff]

theorem plain_of_absolute (absolute : entry.isRelative = false) :
    ¬ ['.', '/'] <+: entry.path.toList := by
  obtain ⟨rest, path⟩ := isRelative_eq_false_iff.mp absolute
  rw [path]
  rintro ⟨tail, same⟩
  cases same

section Reread

variable {rest : List Char}

theorem reread_of_dot (path : entry.path.toList = '.' :: '/' :: rest) :
    entry.reread.path.toList =
      if rest.dropWhile (· == '/') = [] then ['.'] else rest.dropWhile (· == '/') := by
  rw [reread, path]
  simp only
  cases left : rest.dropWhile (· == '/') with
  | nil => rfl
  | cons c tail => simp

theorem reread_of_plain (plain : ¬ ['.', '/'] <+: entry.path.toList) : entry.reread = entry := by
  rw [reread]
  split
  · next rest path =>
    rw [path] at plain
    exact absurd ⟨rest, rfl⟩ plain
  · rfl

-- What is left out makes the path shorter.
theorem reread_eq_self_iff : entry.reread = entry ↔ ¬ ['.', '/'] <+: entry.path.toList := by
  constructor
  · rintro same ⟨rest, whole⟩
    have path : entry.path.toList = '.' :: '/' :: rest := whole.symm
    have left := congrArg List.length (reread_of_dot path)
    have shorter := (List.dropWhile_sublist (l := rest) (· == '/')).length_le
    rw [same, path] at left
    split at left
    · simp only [List.length_cons, List.length_nil] at left
      omega
    · simp only [List.length_cons] at left
      omega
  · exact reread_of_plain

theorem isRelative_reread : entry.reread.isRelative = entry.isRelative := by
  by_cases dot : ['.', '/'] <+: entry.path.toList
  · obtain ⟨rest, whole⟩ := dot
    have path : entry.path.toList = '.' :: '/' :: rest := whole.symm
    have relative : entry.isRelative = true := by
      rw [isRelative, path]
      rfl
    rw [relative, isRelative, reread_of_dot path, bne_iff_ne]
    split
    · decide
    · intro slash
      exact absurd (Text.head_of_dropWhile (· == '/') rest '/' slash) (by decide)
  · rw [reread_of_plain dot]

end Reread

section Variable

theorem origin_eq : origin = ['$', 'O', 'R', 'I', 'G', 'I', 'N'] := by decide

theorem bracedOrigin_eq :
    bracedOrigin = ['$', '\x7b', 'O', 'R', 'I', 'G', 'I', 'N', '\x7d'] := by decide

variable {rest : List Char}

theorem trimmed_below_origin (ends : ∀ c ∈ rest.getLast?, Text.isBlank c = false) :
    Text.Trimmed (origin ++ rest) := by
  constructor
  case starts =>
    rw [origin_eq]
    rintro _ ⟨⟩
    decide
  case ends =>
    rw [List.getLast?_append]
    cases last : rest.getLast? with
    | none =>
      rw [origin_eq]
      rintro _ ⟨⟩
      decide
    | some c =>
      rintro _ ⟨⟩
      exact ends c last

theorem parse_below_origin (trimmed : Text.Trimmed (origin ++ rest)) :
    parse (origin ++ rest) = belowOrigin origin rest := by
  have unbraced : bracedOrigin.isPrefixOf (origin ++ rest) = false := by
    simp [bracedOrigin_eq, origin_eq, List.isPrefixOf]
  have prefixed : origin.isPrefixOf (origin ++ rest) = true :=
    List.isPrefixOf_iff_prefix.mpr (List.prefix_append _ _)
  simp only [parse, Text.trim_of_trimmed trimmed, unbraced, prefixed, if_true, List.drop_left,
    Bool.false_eq_true, if_false]

theorem parse_of_absolute (trimmed : Text.Trimmed ('/' :: rest)) :
    parse ('/' :: rest) = .ok ⟨String.ofList ('/' :: rest)⟩ := by
  have unbraced : bracedOrigin.isPrefixOf ('/' :: rest) = false := by
    simp [bracedOrigin_eq, List.isPrefixOf]
  have unprefixed : origin.isPrefixOf ('/' :: rest) = false := by
    simp [origin_eq, List.isPrefixOf]
  simp only [parse, Text.trim_of_trimmed trimmed, unbraced, unprefixed, Bool.false_eq_true,
    if_false]

end Variable

namespace Storable

theorem last_filled (storable : entry.Storable) :
    ∀ c ∈ entry.path.toList.getLast?, Text.isBlank c = false := by
  obtain ⟨_, c, last, filled⟩ := storable
  rw [last]
  rintro _ ⟨⟩
  exact filled

theorem path_ne_nil (storable : entry.Storable) : entry.path.toList ≠ [] := by
  obtain ⟨_, c, last, _⟩ := storable
  rintro empty
  rw [empty] at last
  cases last

end Storable

/-- A relative entry is stored as the variable with something behind it, from which the entry is
read back. -/
structure StoredBehind (entry : Entry) (rest : List Char) : Prop where
  stored : entry.stored = origin ++ rest
  undivided : ':' ∉ rest
  ends : ∀ c ∈ rest.getLast?, Text.isBlank c = false
  readBack : belowOrigin origin rest = .ok entry.reread

namespace Storable

theorem stored_behind_here (here : entry.path.toList = ['.']) : entry.StoredBehind [] := by
  have relative : entry.isRelative = true := by
    rw [isRelative, here]
    rfl
  constructor
  case stored => simp [Entry.stored, relative, here]
  case undivided => exact List.not_mem_nil
  case ends => nofun
  case readBack =>
    rw [reread_of_plain (by rw [here]; decide), eq_of_path here]
    rfl

theorem stored_behind_dot (storable : entry.Storable) {rest : List Char}
    (path : entry.path.toList = '.' :: '/' :: rest) : entry.StoredBehind ('/' :: rest) := by
  have undivided := storable.undivided
  have ends := storable.last_filled
  rw [path] at undivided ends
  have relative : entry.isRelative = true := by
    rw [isRelative, path]
    rfl
  constructor
  case stored => simp [Entry.stored, relative, path]
  case undivided => exact fun colon => undivided (List.mem_cons_of_mem _ colon)
  case ends => rwa [List.getLast?_cons_cons] at ends
  case readBack =>
    rw [belowOrigin, reread, path]
    simp only
    cases rest.dropWhile (· == '/') <;> rfl

theorem stored_behind_plain (storable : entry.Storable) (relative : entry.isRelative = true)
    (elsewhere : entry.path.toList ≠ ['.']) (plain : ¬ ['.', '/'] <+: entry.path.toList) :
    entry.StoredBehind ('/' :: entry.path.toList) := by
  have unslashed : entry.path.toList.dropWhile (· == '/') = entry.path.toList := by
    apply Text.dropWhile_of_head
    intro c first
    rw [isRelative, bne_iff_ne] at relative
    rw [beq_eq_false_iff_ne]
    rintro rfl
    exact relative first
  constructor
  case stored =>
    have unprefixed : ['.', '/'].isPrefixOf entry.path.toList = false := by
      rw [← Bool.not_eq_true, List.isPrefixOf_iff_prefix]
      exact plain
    simp [Entry.stored, relative, elsewhere, unprefixed]
  case undivided => simp [storable.undivided]
  case ends =>
    obtain ⟨_, c, last, filled⟩ := storable
    rw [List.getLast?_cons, last]
    rintro _ ⟨⟩
    exact filled
  case readBack =>
    rw [reread_of_plain plain, belowOrigin, unslashed]
    cases path : entry.path.toList with
    | nil => exact absurd path storable.path_ne_nil
    | cons c rest => rw [eq_of_path path]

theorem stored_behind (storable : entry.Storable) (relative : entry.isRelative = true) :
    ∃ rest, entry.StoredBehind rest := by
  by_cases here : entry.path.toList = ['.']
  · exact ⟨[], stored_behind_here here⟩
  · by_cases dot : ['.', '/'] <+: entry.path.toList
    · obtain ⟨rest, path⟩ := dot
      exact ⟨_, storable.stored_behind_dot path.symm⟩
    · exact ⟨_, storable.stored_behind_plain relative here dot⟩

theorem stored_of_absolute (absolute : entry.isRelative = false) :
    entry.stored = entry.path.toList := by
  simp [Entry.stored, absolute]

-- Nothing is lost where the stored form is trimmed or divided.
theorem trimmed_stored (storable : entry.Storable) : Text.Trimmed entry.stored := by
  cases relative : entry.isRelative with
  | true =>
    obtain ⟨rest, behind⟩ := storable.stored_behind relative
    rw [behind.stored]
    exact trimmed_below_origin behind.ends
  | false =>
    obtain ⟨rest, path⟩ := isRelative_eq_false_iff.mp relative
    have ends := storable.last_filled
    rw [stored_of_absolute relative]
    rw [path] at ends ⊢
    refine ⟨?_, ends⟩
    rintro _ ⟨⟩
    decide

theorem undivided_stored (storable : entry.Storable) : ':' ∉ entry.stored := by
  cases relative : entry.isRelative with
  | true =>
    obtain ⟨rest, behind⟩ := storable.stored_behind relative
    rw [behind.stored, origin_eq]
    simp [behind.undivided]
  | false =>
    rw [stored_of_absolute relative]
    exact storable.undivided

theorem stored_ne_nil (storable : entry.Storable) : entry.stored ≠ [] := by
  cases relative : entry.isRelative with
  | true =>
    obtain ⟨rest, behind⟩ := storable.stored_behind relative
    rw [behind.stored, origin_eq]
    exact List.cons_ne_nil _ _
  | false =>
    rw [stored_of_absolute relative]
    exact storable.path_ne_nil

theorem parse_stored (storable : entry.Storable) : parse entry.stored = .ok entry.reread := by
  have trimmed := storable.trimmed_stored
  cases relative : entry.isRelative with
  | true =>
    obtain ⟨rest, behind⟩ := storable.stored_behind relative
    rw [behind.stored] at trimmed ⊢
    rw [parse_below_origin trimmed, behind.readBack]
  | false =>
    obtain ⟨rest, path⟩ := isRelative_eq_false_iff.mp relative
    rw [stored_of_absolute relative, path] at trimmed ⊢
    rw [parse_of_absolute trimmed, ← eq_of_path path,
      reread_of_plain (plain_of_absolute relative)]

end Storable

section Reading

variable {path whole : List Char}

/-- The end of a text that can be stored can be stored. -/
theorem storable_of_suffix (suffix : path <:+ whole) (filled : path ≠ [])
    (undivided : ':' ∉ whole) (ends : ∀ c ∈ whole.getLast?, Text.isBlank c = false) :
    Storable ⟨String.ofList path⟩ := by
  obtain ⟨front, rfl⟩ := suffix
  obtain ⟨c, last⟩ := Option.ne_none_iff_exists'.mp (mt List.getLast?_eq_none_iff.mp filled)
  constructor
  case undivided =>
    rw [String.toList_ofList]
    exact fun colon => undivided (List.mem_append_right _ colon)
  case ends =>
    refine ⟨c, by rw [String.toList_ofList, last], ends c ?_⟩
    rw [List.getLast?_append, last]
    rfl

theorem storable_of_below_origin {spelling : List Char} (suffix : path <:+ whole)
    (undivided : ':' ∉ whole) (ends : ∀ c ∈ whole.getLast?, Text.isBlank c = false)
    (read : belowOrigin spelling path = .ok entry) : entry.Storable := by
  have here : Storable ⟨"."⟩ := ⟨by decide, '.', by decide, by decide⟩
  unfold belowOrigin at read
  split at read
  · cases read
    exact here
  · next rest =>
    split at read
    · cases read
      exact here
    · next filled =>
      cases read
      refine storable_of_suffix ?_ filled undivided ends
      exact (List.dropWhile_suffix _).trans ((List.suffix_cons _ _).trans suffix)
  · cases read

/-- What is read can be stored. -/
theorem storable_of_parse {item : List Char} (undivided : ':' ∉ item)
    (filled : Text.trim item ≠ []) (read : parse item = .ok entry) : entry.Storable := by
  have ends := (Text.trimmed_trim item).ends
  have clean : ':' ∉ Text.trim item := fun colon => undivided (Text.mem_of_mem_trim colon)
  unfold parse at read
  simp only at read
  split at read
  · exact storable_of_below_origin (List.drop_suffix _ _) clean ends read
  · split at read
    · exact storable_of_below_origin (List.drop_suffix _ _) clean ends read
    · cases read
      exact storable_of_suffix List.suffix_rfl filled clean ends

theorem storable_of_path {text : String} (made : ofPath? text = some entry)
    (undivided : ':' ∉ entry.path.toList) : entry.Storable := by
  unfold ofPath? at made
  split at made
  · cases made
  · next filled =>
    cases made
    rw [String.toList_ofList] at undivided
    exact storable_of_suffix List.suffix_rfl filled undivided (Text.trimmed_trim _).ends

end Reading

end Entry

variable {searchPath : SearchPath}

-- An empty search path is stored as a text of one blank piece, which is passed over.
theorem items_of_render (storable : ∀ entry ∈ searchPath.entries, entry.Storable) :
    ((pieces searchPath.render.toList).filter fun item => !(Text.trim item).isEmpty) =
      searchPath.entries.map Entry.stored := by
  have undivided : ∀ item ∈ searchPath.entries.map Entry.stored, ':' ∉ item := by
    rw [List.forall_mem_map]
    exact fun entry member => (storable entry member).undivided_stored
  have filled : ∀ item ∈ searchPath.entries.map Entry.stored,
      (!(Text.trim item).isEmpty) = true := by
    rw [List.forall_mem_map]
    intro entry member
    rw [Text.trim_of_trimmed (storable entry member).trimmed_stored]
    simpa using (storable entry member).stored_ne_nil
  rw [render, String.toList_ofList]
  by_cases none : searchPath.entries = []
  · rw [none]
    rfl
  · have some : searchPath.entries.map Entry.stored ≠ [] := mt List.map_eq_nil_iff.mp none
    rw [pieces_eq_splitOn, List.splitOn_intercalate ':' undivided some,
      List.filter_eq_self.mpr filled]

/-- Entries that can be stored are read back one by one. -/
theorem parse_render (storable : ∀ entry ∈ searchPath.entries, entry.Storable) :
    parse searchPath.render = .ok ⟨searchPath.entries.map Entry.reread⟩ := by
  have read : (searchPath.entries.map Entry.stored).mapM Entry.parse =
      .ok (searchPath.entries.map Entry.reread) := by
    rw [mapM_eq_ok_iff, List.forall₂_map_left_iff, List.forall₂_map_right_iff, List.forall₂_same]
    exact fun entry member => (storable entry member).parse_stored
  rw [parse, items_of_render storable, read]
  rfl

theorem storable_of_parse {text : String} (read : parse text = .ok searchPath) :
    ∀ entry ∈ searchPath.entries, entry.Storable := by
  obtain ⟨entries, all, same⟩ := bind_eq_ok_iff.mp read
  cases same
  intro entry member
  obtain ⟨item, inside, one⟩ := mem_of_mapM_eq_ok all member
  obtain ⟨piece, filled⟩ := List.mem_filter.mp inside
  exact Entry.storable_of_parse (undivided_of_mem_pieces piece) (by simpa using filled) one

theorem reread_entries_eq_self_iff :
    searchPath.entries.map Entry.reread = searchPath.entries ↔
      ∀ entry ∈ searchPath.entries, ¬ ['.', '/'] <+: entry.path.toList := by
  have each := List.map_inj_left (l := searchPath.entries) (f := Entry.reread) (g := id)
  rw [List.map_id] at each
  rw [each]
  exact forall₂_congr fun entry _ => Entry.reread_eq_self_iff

/-- Paths without colons come back without `./`, so the search path comes back as it was exactly
when none of them begins so. -/
theorem parse_render_of_paths (paths : List String)
    (undivided : ∀ entry ∈ (ofPaths paths).entries, ':' ∉ entry.path.toList) :
    parse (ofPaths paths).render = .ok ⟨(ofPaths paths).entries.map Entry.reread⟩ ∧
    (parse (ofPaths paths).render = .ok (ofPaths paths) ↔
      ∀ entry ∈ (ofPaths paths).entries, ¬ ['.', '/'] <+: entry.path.toList) := by
  have storable : ∀ entry ∈ (ofPaths paths).entries, entry.Storable := by
    intro entry member
    obtain ⟨path, _, made⟩ := List.mem_filterMap.mp member
    exact Entry.storable_of_path made (undivided entry member)
  refine ⟨parse_render storable, ?_⟩
  rw [parse_render storable, ← reread_entries_eq_self_iff, Except.ok.injEq]
  exact Iff.of_eq (SearchPath.mk.injEq _ _)

theorem parse_render_of_paths_sample :
    (∀ entry ∈ (ofPaths [" ./sub ", "", "lib", "/usr/lib"]).entries, ':' ∉ entry.path.toList) ∧
      (ofPaths [" ./sub ", "", "lib", "/usr/lib"]).render = "$ORIGIN/sub:$ORIGIN/lib:/usr/lib" ∧
      parse (ofPaths [" ./sub ", "", "lib", "/usr/lib"]).render =
        .ok ⟨[⟨"sub"⟩, ⟨"lib"⟩, ⟨"/usr/lib"⟩]⟩ ∧
      parse (ofPaths ["lib", "/usr/lib"]).render = .ok (ofPaths ["lib", "/usr/lib"]) := by
  have undivided : ∀ entry ∈ (ofPaths [" ./sub ", "", "lib", "/usr/lib"]).entries,
      ':' ∉ entry.path.toList := by decide +kernel
  have plain : ∀ entry ∈ (ofPaths ["lib", "/usr/lib"]).entries, ':' ∉ entry.path.toList := by
    decide +kernel
  refine ⟨undivided, by decide +kernel, ?_, ?_⟩
  · exact (parse_render_of_paths _ undivided).1.trans (by decide +kernel)
  · exact (parse_render_of_paths _ plain).2.mpr (by decide +kernel)

-- The stored form has no way to write a colon inside a path, and `./` is not kept.
theorem paths_changed_by_storing :
    parse (ofPaths ["./sub"]).render = .ok ⟨[⟨"sub"⟩]⟩ ∧
      parse (ofPaths ["./sub"]).render ≠ .ok (ofPaths ["./sub"]) ∧
      parse (ofPaths ["a:b"]).render = .ok ⟨[⟨"a"⟩, ⟨"b"⟩]⟩ ∧
      parse (ofPaths ["a:b"]).render ≠ .ok (ofPaths ["a:b"]) := by
  decide +kernel

/-- A search path that was read has no empty or divided entry. When it is stored and read again,
each entry stays where it is and keeps its kind; one that begins with `./` loses that and the
slashes behind it, and all others come back as they were. -/
theorem parse_render_of_parse {text : String} (read : parse text = .ok searchPath) :
    (∀ entry ∈ searchPath.entries, entry.path ≠ "" ∧ ':' ∉ entry.path.toList) ∧
    parse searchPath.render = .ok ⟨searchPath.entries.map Entry.reread⟩ ∧
    ∀ entry ∈ searchPath.entries, entry.reread.isRelative = entry.isRelative ∧
      (entry.isRelative = false ∨ ¬ ['.', '/'] <+: entry.path.toList → entry.reread = entry) ∧
      ∀ rest, entry.path.toList = '.' :: '/' :: rest → entry.reread.path.toList =
        if rest.dropWhile (· == '/') = [] then ['.'] else rest.dropWhile (· == '/') := by
  have storable := storable_of_parse read
  refine ⟨?_, parse_render storable, ?_⟩
  · intro entry member
    refine ⟨?_, (storable entry member).undivided⟩
    intro empty
    exact (storable entry member).path_ne_nil (by rw [empty]; rfl)
  · intro entry _
    refine ⟨Entry.isRelative_reread, ?_, fun rest => Entry.reread_of_dot⟩
    rintro (absolute | plain)
    · exact Entry.reread_of_plain (Entry.plain_of_absolute absolute)
    · exact Entry.reread_of_plain plain

section Sample

def nestedText : String := "$ORIGIN/.//a: /usr/lib ::$\x7bORIGIN\x7d/./"

def nestedPath : SearchPath := ⟨[⟨".//a"⟩, ⟨"/usr/lib"⟩, ⟨"./"⟩]⟩

end Sample

theorem parse_render_of_parse_nested :
    parse nestedText = .ok nestedPath ∧
      (∀ entry ∈ nestedPath.entries, entry.path ≠ "" ∧ ':' ∉ entry.path.toList) ∧
      parse nestedPath.render = .ok ⟨[⟨"a"⟩, ⟨"/usr/lib"⟩, ⟨"."⟩]⟩ := by
  have read : parse nestedText = .ok nestedPath := by decide +kernel
  obtain ⟨plain, readBack, _⟩ := parse_render_of_parse read
  exact ⟨read, plain, readBack.trans (by decide +kernel)⟩

end SearchPath

end BinaryImage
