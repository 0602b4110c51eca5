import BinaryImage.Proofs.Pe.HeaderFrame
import BinaryImage.Proofs.RoundTrip

/-!
Detection on data that is still coming in. The leading bytes alone say how much of a file detection
has to see, and once that much is there its answer is final. A caller who each time brings as much
as was asked for needs to ask no more than twice again.
-/

namespace BinaryImage.Format

/-- The answer does not wait for more data: a format, or none that is known. -/
def Settled (data : Bytes) : Prop :=
  (∃ format, detect data = .ok format) ∨ detect data = .error .unrecognized

def beginsDos (data : Bytes) : Bool :=
  data.take 4 != Elf.Ident.magic && littleAt data 0 2 == Pe.DosHeader.expectedMagic

def signatureStop (data : Bytes) : Nat :=
  littleAt data Pe.DosHeader.signaturePointer 4 + Pe.Headers.signatureSize

def isSigned (data : Bytes) : Bool :=
  littleAt data (littleAt data Pe.DosHeader.signaturePointer 4) Pe.Headers.signatureSize ==
    Pe.Headers.expectedSignature

/-- How much of the file detection asks for. -/
def demand (data : Bytes) : Nat :=
  if signatureLength ≤ data.length ∧ beginsDos data then signatureStop data else signatureLength

/-- What detection answers when it sees as much as it asks for. -/
def verdict (data : Bytes) : Except Error Format :=
  if data.take 4 = Elf.Ident.magic then .ok .elf
  else if beginsDos data ∧ isSigned data then .ok .pe
  else .error .unrecognized

theorem behind_dos_header_eq (data : Bytes) :
    behindDosHeader data =
      if data.length < signatureStop data then
        .error (.truncated (signatureStop data) data.length)
      else if isSigned data then .ok .pe else .error .unrecognized := by
  have read : behindDosHeader data = (do
      require (signatureStop data ≤ data.length) (.truncated (signatureStop data) data.length)
      require (isSigned data) .unrecognized
      return .pe) := rfl
  rw [read]
  by_cases short : data.length < signatureStop data
  · simp [require, short, Nat.not_le.mpr short, bind, Except.bind]
  · by_cases signed : isSigned data = true
    · simp [require, short, Nat.not_lt.mp short, signed, bind, Except.bind, pure, Except.pure]
    · simp [require, short, Nat.not_lt.mp short, signed, bind, Except.bind]

/-- Detection asks for more data, or answers. -/
theorem detect_eq (data : Bytes) :
    detect data =
      if data.length < demand data then .error (.truncated (demand data) data.length)
      else verdict data := by
  by_cases long : signatureLength ≤ data.length
  · by_cases elf : data.take 4 = Elf.Ident.magic
    · have other : beginsDos data = false := by simp [beginsDos, elf]
      have demanded : demand data = signatureLength := by simp [demand, other]
      rw [demanded, if_neg (Nat.not_lt.mpr long), verdict, if_pos elf]
      simp [detect, require, long, elf, bind, Except.bind, pure, Except.pure]
    · by_cases dos : littleAt data 0 2 = Pe.DosHeader.expectedMagic
      · have begins : beginsDos data = true := by simp [beginsDos, elf, dos]
        have demanded : demand data = signatureStop data := by simp [demand, long, begins]
        have behind : detect data = behindDosHeader data := by
          simp [detect, require, long, elf, dos, bind, Except.bind]
        rw [behind, behind_dos_header_eq, demanded, verdict, if_neg elf]
        simp only [begins, true_and]
      · have other : beginsDos data = false := by simp [beginsDos, dos]
        have demanded : demand data = signatureLength := by simp [demand, other]
        rw [demanded, if_neg (Nat.not_lt.mpr long), verdict, if_neg elf]
        simp [detect, require, long, elf, dos, other, bind, Except.bind]
  · have demanded : demand data = signatureLength := by simp [demand, long]
    rw [demanded, if_pos (Nat.not_le.mp long)]
    simp [detect, require, long, bind, Except.bind]

theorem verdict_settled (data : Bytes) :
    (∃ format, verdict data = .ok format) ∨ verdict data = .error .unrecognized := by
  unfold verdict
  split
  · exact .inl ⟨.elf, rfl⟩
  · split
    · exact .inl ⟨.pe, rfl⟩
    · exact .inr rfl

theorem detect_eq_truncated_iff {data : Bytes} {needed available : Nat} :
    detect data = .error (.truncated needed available) ↔
      data.length < demand data ∧ needed = demand data ∧ available = data.length := by
  rw [detect_eq]
  by_cases short : data.length < demand data
  · simp [short, eq_comm]
  · rcases verdict_settled data with ⟨format, answer⟩ | answer <;> simp [short, answer]

theorem settled_iff {data : Bytes} : Settled data ↔ demand data ≤ data.length := by
  unfold Settled
  rw [detect_eq]
  by_cases short : data.length < demand data
  · simp [short]
  · simpa only [short, if_false, Nat.not_lt.mp short, iff_true] using verdict_settled data

theorem long_of_settled {data : Bytes} (settled : Settled data) :
    signatureLength ≤ data.length := by
  have seen := settled_iff.mp settled
  by_contra short
  rw [demand, if_neg fun both => short both.1] at seen
  exact short seen

section Growing

variable {front : Bytes} (more : Bytes)

theorem little_at_append {start length : Nat} (inside : start + length ≤ front.length) :
    littleAt (front ++ more) start length = littleAt front start length := by
  rw [littleAt, littleAt, List.drop_append_of_le_length (by omega),
    List.take_append_of_le_length (by rw [List.length_drop]; omega)]

section Long

variable (long : signatureLength ≤ front.length)
include long

theorem take_magic_append : (front ++ more).take 4 = front.take 4 := by
  have enough : 4 ≤ signatureLength := by decide
  exact List.take_append_of_le_length (Nat.le_trans enough long)

theorem begins_dos_append : beginsDos (front ++ more) = beginsDos front := by
  have enough : 0 + 2 ≤ signatureLength := by decide
  rw [beginsDos, beginsDos, take_magic_append more long,
    little_at_append more (Nat.le_trans enough long)]

theorem pointer_append : littleAt (front ++ more) Pe.DosHeader.signaturePointer 4 =
    littleAt front Pe.DosHeader.signaturePointer 4 := by
  have enough : Pe.DosHeader.signaturePointer + 4 ≤ signatureLength := by decide
  exact little_at_append more (Nat.le_trans enough long)

/-- Once the DOS header is there, more data changes nothing about what is asked for. -/
theorem demand_append : demand (front ++ more) = demand front := by
  have longer : signatureLength ≤ (front ++ more).length := by
    rw [List.length_append]
    omega
  rw [demand, demand, begins_dos_append more long, signatureStop, signatureStop,
    pointer_append more long]
  simp only [long, longer, true_and]

end Long

-- Less than was asked for leaves the question as it is, also where the DOS header is not yet there.
theorem demand_append_of_short (short : (front ++ more).length < demand front) :
    demand (front ++ more) = demand front := by
  by_cases long : signatureLength ≤ front.length
  · exact demand_append more long
  · have demanded : demand front = signatureLength := by simp [demand, long]
    rw [demanded] at short ⊢
    rw [demand, if_neg fun both => Nat.not_lt.mpr both.1 short]

theorem verdict_append (settled : Settled front) : verdict (front ++ more) = verdict front := by
  have long := long_of_settled settled
  rw [verdict, verdict, take_magic_append more long, begins_dos_append more long]
  by_cases begins : beginsDos front = true
  · -- The signature is in front of all that has come in later.
    have seen := settled_iff.mp settled
    rw [demand, if_pos ⟨long, begins⟩] at seen
    have signature : isSigned (front ++ more) = isSigned front := by
      rw [isSigned, isSigned, pointer_append more long, little_at_append more seen]
    rw [signature]
  · simp [begins]

theorem detect_append (settled : Settled front) : detect (front ++ more) = detect front := by
  have seen := settled_iff.mp settled
  have again : demand (front ++ more) ≤ (front ++ more).length := by
    rw [demand_append more (long_of_settled settled), List.length_append]
    omega
  rw [detect_eq, detect_eq, if_neg (Nat.not_lt.mpr again), if_neg (Nat.not_lt.mpr seen),
    verdict_append more settled]

theorem settled_of_demand (long : signatureLength ≤ front.length)
    (brought : demand front ≤ (front ++ more).length) : Settled (front ++ more) := by
  rw [settled_iff, demand_append more long]
  exact brought

end Growing

/-- An answer stays as more data comes in. A demand for more stays as it is until it is met, and
then there is an answer, or one last demand. Files that a parser accepts are of its format, unless
they are too short for detection. -/
theorem detection_settles (front : Bytes) :
    (Settled front → ∀ more, detect (front ++ more) = detect front) ∧
    (∀ needed available, detect front = .error (.truncated needed available) →
      available = front.length ∧ available < needed ∧
      (∀ more, (front ++ more).length < needed →
        detect (front ++ more) = .error (.truncated needed (front ++ more).length)) ∧
      ∀ more, needed ≤ (front ++ more).length → Settled (front ++ more) ∨
        ∃ last, detect (front ++ more) = .error (.truncated last (front ++ more).length) ∧
          ∀ rest, last ≤ (front ++ more ++ rest).length → Settled (front ++ more ++ rest)) ∧
    (signatureLength ≤ front.length →
      (∀ image, Elf.Image.parse front = .ok image → detect front = .ok .elf) ∧
      ∀ image, Pe.Image.parse front = .ok image → detect front = .ok .pe) := by
  refine ⟨fun settled more => detect_append more settled, ?_, ?_⟩
  · intro needed available asked
    obtain ⟨short, rfl, rfl⟩ := detect_eq_truncated_iff.mp asked
    refine ⟨rfl, short, ?_, ?_⟩
    · intro more tooLittle
      have same := demand_append_of_short more tooLittle
      exact detect_eq_truncated_iff.mpr ⟨same ▸ tooLittle, same.symm, rfl⟩
    · intro more brought
      by_cases long : signatureLength ≤ front.length
      · exact .inl (settled_of_demand more long brought)
      · -- The first demand was for the DOS header, behind which the signature may still be missing.
        have header : signatureLength ≤ (front ++ more).length := by
          have demanded : demand front = signatureLength := by simp [demand, long]
          rwa [demanded] at brought
        by_cases missing : (front ++ more).length < demand (front ++ more)
        · refine .inr ⟨_, detect_eq_truncated_iff.mpr ⟨missing, rfl, rfl⟩, ?_⟩
          exact fun rest => settled_of_demand rest header
        · exact .inl (settled_iff.mpr (Nat.not_lt.mp missing))
  · intro long
    exact ⟨fun _ parsed => detect_of_elf long parsed, fun _ parsed => detect_of_pe long parsed⟩

-- Ten bytes of the file ask for its DOS header, and the header for the four bytes behind it.
theorem detection_settles_importing :
    let file := Session.importingFile
    detect (file.take 10) = .error (.truncated 64 10) ∧
      detect (file.take 10 ++ (file.drop 10).take 20) = .error (.truncated 64 30) ∧
      detect (file.take 64) = .error (.truncated 68 64) ∧
      Settled (file.take 64 ++ (file.drop 64).take 4) ∧
      detect (file.take 68 ++ file.drop 68) = .ok .pe ∧
      detect file = .ok .pe := by
  have front : detect (Session.importingFile.take 10) = .error (.truncated 64 10) := by
    decide +kernel
  have header : detect (Session.importingFile.take 64) = .error (.truncated 68 64) := by
    decide +kernel
  have signed : detect (Session.importingFile.take 68) = .ok .pe := by decide +kernel
  have parsed : Pe.Image.parse Session.importingFile = .ok Session.importingImage := by
    decide +kernel
  obtain ⟨-, -, asks, -⟩ := (detection_settles _).2.1 64 10 front
  obtain ⟨-, -, -, answers⟩ := (detection_settles _).2.1 68 64 header
  refine ⟨front, ?_, header, ?_, ?_, ?_⟩
  · have again := asks ((Session.importingFile.drop 10).take 20) (by decide +kernel)
    rwa [show (Session.importingFile.take 10 ++ (Session.importingFile.drop 10).take 20).length
      = 30 by decide +kernel] at again
  · obtain settled | ⟨last, asked, -⟩ :=
      answers ((Session.importingFile.drop 64).take 4) (by decide +kernel)
    · exact settled
    · exact absurd (asked.symm.trans (by decide +kernel : _ = Except.ok Format.pe)) (by simp)
  · exact ((detection_settles _).1 (.inl ⟨.pe, signed⟩) _).trans signed
  · exact ((detection_settles _).2.2 (by decide +kernel)).2 _ parsed

end BinaryImage.Format
