import Mathlib.Data.String.Basic
import EternalTerminal.Library.RetainedLog

/-!
# Ranges of the bytes of a string

A range of bytes is a string again when it begins and ends between characters; then what is before it,
the range and what is behind it are joined to the whole. Where such a cut is made is told by the number
of bytes before it.
-/

namespace String

/-- The bytes from `start` to `stop`, when no character is cut. -/
def getRange (s : String) (start stop : Nat) : Option String :=
  if h : start ≤ stop ∧ (Pos.Raw.mk start).IsValid s ∧ (Pos.Raw.mk stop).IsValid s then
    some (s.extract ⟨⟨start⟩, h.2.1⟩ ⟨⟨stop⟩, h.2.2⟩)
  else none

theorem isValid_mk_iff {s : String} {n : Nat} :
    (Pos.Raw.mk n).IsValid s ↔ ∃ before behind, s = before ++ behind ∧ before.utf8ByteSize = n := by
  rw [Pos.Raw.isValid_iff_exists_append]
  constructor
  · rintro ⟨before, behind, rfl, heq⟩
    exact ⟨before, behind, rfl, congrArg Pos.Raw.byteIdx heq.symm⟩
  · rintro ⟨before, behind, rfl, rfl⟩
    exact ⟨before, behind, rfl, rfl⟩

theorem append_inj {before other behind rest : String} (h : before ++ behind = other ++ rest)
    (hsize : before.utf8ByteSize = other.utf8ByteSize) : before = other ∧ behind = rest := by
  have hbytes : before.toByteArray ++ behind.toByteArray = other.toByteArray ++ rest.toByteArray := by
    rw [← toByteArray_append, h, toByteArray_append]
  obtain rfl : before = other := toByteArray_inj.mp (ByteArray.append_inj_left hbytes hsize)
  exact ⟨rfl, (append_right_inj before).mp h⟩

/-! ### The range of two positions -/

theorem utf8ByteSize_extract {s : String} {b e : s.Pos} :
    (s.extract b e).utf8ByteSize = e.offset.byteIdx - b.offset.byteIdx := by
  have hend : e.offset.byteIdx ≤ s.utf8ByteSize := e.isValid.le_rawEndPos
  rw [← size_toByteArray, toByteArray_extract, ByteArray.size_extract, size_toByteArray,
    Nat.min_eq_left hend]

theorem eq_extract_append {s : String} {b e : s.Pos} (h : b.offset.byteIdx ≤ e.offset.byteIdx) :
    s = s.extract s.startPos b ++ s.extract b e ++ s.extract e s.endPos := by
  have hend : e.offset.byteIdx ≤ s.utf8ByteSize := e.isValid.le_rawEndPos
  have hcut : s.toByteArray.extract 0 s.utf8ByteSize = s.toByteArray.extract 0 b.offset.byteIdx
      ++ s.toByteArray.extract b.offset.byteIdx e.offset.byteIdx
      ++ s.toByteArray.extract e.offset.byteIdx s.utf8ByteSize := by
    rw [ByteArray.extract_eq_extract_append_extract e.offset.byteIdx (Nat.zero_le _) hend,
      ByteArray.extract_eq_extract_append_extract b.offset.byteIdx (Nat.zero_le _) h]
  rw [← toByteArray_inj, toByteArray_append, toByteArray_append]
  exact ByteArray.extract_zero_size.symm.trans hcut

theorem getRange_eq_some {s piece : String} {start stop : Nat} :
    s.getRange start stop = some piece ↔
      ∃ before behind, s = before ++ piece ++ behind ∧ before.utf8ByteSize = start
        ∧ start + piece.utf8ByteSize = stop := by
  rw [getRange]
  constructor
  · intro h
    split_ifs at h with hrange
    obtain rfl := Option.some.inj h
    refine ⟨_, _, eq_extract_append hrange.1, ?_, ?_⟩
    · rw [utf8ByteSize_extract]
      exact Nat.sub_zero _
    · rw [utf8ByteSize_extract]
      exact Nat.add_sub_of_le hrange.1
  · rintro ⟨before, behind, hsplit, rfl, rfl⟩
    have hstart : (Pos.Raw.mk before.utf8ByteSize).IsValid s :=
      isValid_mk_iff.mpr ⟨before, piece ++ behind, by rw [hsplit, append_assoc], rfl⟩
    have hstop : (Pos.Raw.mk (before.utf8ByteSize + piece.utf8ByteSize)).IsValid s :=
      isValid_mk_iff.mpr ⟨before ++ piece, behind, hsplit, utf8ByteSize_append⟩
    have hle : before.utf8ByteSize ≤ before.utf8ByteSize + piece.utf8ByteSize := Nat.le_add_right _ _
    rw [dif_pos ⟨hle, hstart, hstop⟩, Option.some.injEq]
    -- the cut of these sizes is unique
    have hcut := (eq_extract_append (b := ⟨_, hstart⟩) (e := ⟨_, hstop⟩) hle).symm.trans hsplit
    rw [append_assoc, append_assoc] at hcut
    obtain ⟨-, hrest⟩ := append_inj hcut (by rw [utf8ByteSize_extract]; exact Nat.sub_zero _)
    refine (append_inj hrest ?_).1
    rw [utf8ByteSize_extract]
    exact Nat.add_sub_cancel_left _ _

theorem utf8ByteSize_eq_weightSum (s : String) :
    s.utf8ByteSize = s.toList.weightSum Char.utf8Size := by
  suffices h : ∀ l : List Char, (ofList l).utf8ByteSize = l.weightSum Char.utf8Size by
    simpa using h s.toList
  intro l
  induction l with
  | nil => rfl
  | cons c l ih =>
      rw [List.weightSum_cons, ← ih, ← List.singleton_append, ofList_append, utf8ByteSize_append]
      simp

end String
