import EternalTerminal.SshSetup

/-!
# The credentials in the output

The marker cannot overlap itself, so the marker that is put behind other output is the first one. The
window behind it has room for an id of full length; with a shorter one it takes in what comes next, which
the filter and the length of a passkey cut off again.
-/

namespace EternalTerminal

/-! ### Characters -/

def IsAscii (c : Char) : Prop := c.toNat < 128

instance (c : Char) : Decidable (IsAscii c) := inferInstanceAs (Decidable (_ < _))

theorem utf8ByteSize_of_ascii {text : String} (h : ∀ c ∈ text.toList, IsAscii c) :
    text.utf8ByteSize = text.length := by
  rw [String.utf8ByteSize_eq_weightSum, ← String.length_toList]
  generalize text.toList = chars at h
  induction chars with
  | nil => rfl
  | cons c chars ih =>
      obtain ⟨hc, hchars⟩ := List.forall_mem_cons.mp h
      have hone : c.utf8Size = 1 := Char.utf8Size_eq_one_iff.mpr (Nat.le_of_lt_succ hc)
      rw [List.weightSum_cons, ih hchars, hone, List.length_cons, Nat.add_comm]

theorem toNat_of_isAlphanum {c : Char} (h : c.isAlphanum) :
    48 ≤ c.toNat ∧ c.toNat ≤ 57 ∨ 65 ≤ c.toNat ∧ c.toNat ≤ 90 ∨ 97 ≤ c.toNat ∧ c.toNat ≤ 122 := by
  have hkinds : (c.isUpper = true ∨ c.isLower = true) ∨ c.isDigit = true :=
    ((Bool.or_eq_true _ _).mp h).imp_left (Bool.or_eq_true _ _).mp
  rcases hkinds with (hupper | hlower) | hdigit
  · exact .inr (.inl (of_decide_eq_true hupper))
  · obtain ⟨hfirst, hlast⟩ := (Bool.and_eq_true _ _).mp hlower
    exact .inr (.inr ⟨of_decide_eq_true hfirst, of_decide_eq_true hlast⟩)
  · exact .inl (Char.isDigit_iff_toNat.mp hdigit)

theorem isAscii_of_isAlphanum {c : Char} (h : c.isAlphanum) : IsAscii c := by
  have hrange := toNat_of_isAlphanum h
  rw [IsAscii]
  omega

theorem not_isWhitespace_of_isAlphanum {c : Char} (h : c.isAlphanum) : isWhitespace c = false := by
  have hrange := toNat_of_isAlphanum h
  simp only [isWhitespace, Bool.or_eq_false_iff, Bool.and_eq_false_iff, decide_eq_false_iff_not,
    beq_eq_false_iff_ne]
  omega

/-! ### The passkey -/

theorem dropWhile_append_of_not {α : Type} {p : α → Bool} {key : List α} (h : ∀ a ∈ key, p a = false)
    (junk : List α) : ∃ kept, (junk ++ key).dropWhile p = kept ++ key := by
  have hkey : key.dropWhile p = key := by
    cases key with
    | nil => rfl
    | cons a key => rw [List.dropWhile_cons_of_neg (by simp [h a List.mem_cons_self])]
  rw [List.dropWhile_append]
  split_ifs with hempty
  · exact ⟨[], by rw [hkey, List.nil_append]⟩
  · exact ⟨_, rfl⟩

theorem trim_append {key : List Char} (h : ∀ c ∈ key, isWhitespace c = false) (hne : key ≠ [])
    (junk : List Char) : ∃ kept, trim (key ++ junk) = key ++ kept := by
  have hfront : (key ++ junk).dropWhile isWhitespace = key ++ junk := by
    obtain ⟨c, rest, rfl⟩ := List.exists_cons_of_ne_nil hne
    rw [List.cons_append, List.dropWhile_cons_of_neg (by simp [h c List.mem_cons_self])]
  have hreverse : ∀ c ∈ key.reverse, isWhitespace c = false :=
    fun c hmem => h c (List.mem_reverse.mp hmem)
  obtain ⟨kept, hkept⟩ := dropWhile_append_of_not hreverse junk.reverse
  refine ⟨kept.reverse, ?_⟩
  rw [trim, hfront, List.reverse_append, hkept, List.reverse_append, List.reverse_reverse]

/-- A passkey of full length is what is left of it and anything behind it. -/
theorem cleanPasskey_append {passkey : String} (hlength : passkey.length = 32)
    (h : ∀ c ∈ passkey.toList, c.isAlphanum) (junk : List Char) :
    cleanPasskey (passkey.toList ++ junk) = passkey := by
  have hspace : ∀ c ∈ passkey.toList, isWhitespace c = false :=
    fun c hmem => not_isWhitespace_of_isAlphanum (h c hmem)
  have hne : passkey.toList ≠ [] := by
    rw [← List.length_pos_iff, String.length_toList, hlength]
    decide
  obtain ⟨kept, htrim⟩ := trim_append hspace hne junk
  rw [cleanPasskey, htrim, List.filter_append, List.filter_eq_self.mpr h,
    List.take_append_of_le_length (by rw [String.length_toList, hlength]),
    List.take_of_length_le (by rw [String.length_toList, hlength]), String.ofList_toList]

/-! ### The window -/

/-- What is behind the first marker, as many bytes as an id, a separator and a passkey. -/
structure IsWindow (text noise window : String) : Prop where
  first : List.IsFirst marker.toList noise.toList text.toList
  cut : ∃ behind, text = noise ++ marker ++ window ++ behind
  size : window.utf8ByteSize = 16 + 1 + 32

theorem findMarker_eq {text noise : String}
    (h : List.IsFirst marker.toList noise.toList text.toList) :
    List.findWord Char.utf8Size marker.toList text.toList = some noise.utf8ByteSize :=
  (List.findWord_eq_some Char.utf8Size).mpr ⟨_, h, (String.utf8ByteSize_eq_weightSum noise).symm⟩

theorem eq_append_of_isFirst {text noise : String}
    (h : List.IsFirst marker.toList noise.toList text.toList) :
    ∃ rest, text = noise ++ marker ++ rest := by
  obtain ⟨rest, hrest⟩ := h.occurs
  refine ⟨String.ofList rest, ?_⟩
  rw [← String.toList_inj, String.toList_append, String.toList_append, String.toList_ofList, hrest]

/-- The range that is taken behind the first marker is the window. -/
theorem getRange_eq_window {text noise window : String}
    (h : List.IsFirst marker.toList noise.toList text.toList) :
    text.getRange (noise.utf8ByteSize + marker.utf8ByteSize)
        (noise.utf8ByteSize + marker.utf8ByteSize + 16 + 1 + 32) = some window ↔
      IsWindow text noise window := by
  rw [String.getRange_eq_some]
  constructor
  · rintro ⟨before, behind, hsplit, hbefore, hsize⟩
    obtain ⟨rest, hrest⟩ := eq_append_of_isFirst h
    have hcut : before ++ (window ++ behind) = noise ++ marker ++ rest := by
      rw [← String.append_assoc, ← hsplit, hrest]
    obtain ⟨rfl, -⟩ := String.append_inj hcut (by rw [hbefore, String.utf8ByteSize_append])
    exact ⟨h, ⟨behind, hsplit⟩, by omega⟩
  · rintro ⟨-, ⟨behind, hsplit⟩, hsize⟩
    exact ⟨noise ++ marker, behind, hsplit, String.utf8ByteSize_append, by omega⟩

theorem IsWindow.parse_eq {text noise window : String} (h : IsWindow text noise window) :
    parseIdpasskey text =
      match window.toList.splitFirst '/' with
      | some (id, passkey) => .ok (String.ofList id, cleanPasskey passkey)
      | none => .error (.msg "missing passkey") := by
  simp only [parseIdpasskey, findMarker_eq h.first, (getRange_eq_window h.first).mpr h, splitTwo]
  cases window.toList.splitFirst '/' <;> rfl

/-- **What the parser answers.** The pieces are strings that are joined to the whole text, so none of them
begins or ends inside a character. -/
inductive Parses (text : String) : Except Error (String × String) → Prop
  | noMarker (h : ¬ marker.toList <:+: text.toList) :
      Parses text (.error (.msg ("error authenticating with etserver (no IDPASSKEY in output). "
        ++ "Avoid printing from .bashrc/.zshrc. Server output:\n" ++ text)))
  | truncated {noise : String} (h : List.IsFirst marker.toList noise.toList text.toList)
      (hwindow : ∀ window, ¬ IsWindow text noise window) :
      Parses text (.error (.msg "truncated IDPASSKEY payload"))
  | missingPasskey {noise window : String} (h : IsWindow text noise window)
      (hsep : '/' ∉ window.toList) : Parses text (.error (.msg "missing passkey"))
  | ok {noise id passkey : String} (h : IsWindow text noise (id ++ "/" ++ passkey))
      (hid : '/' ∉ id.toList) : Parses text (.ok (id, cleanPasskey passkey.toList))

/-- A window without a separator has no passkey; else the first separator ends the id. -/
theorem IsWindow.parses {text noise window : String} (h : IsWindow text noise window) :
    Parses text (parseIdpasskey text) := by
  rw [h.parse_eq]
  by_cases hsep : '/' ∈ window.toList
  · obtain ⟨id, passkey, hwindow, hid⟩ := List.eq_append_cons_of_mem hsep
    rw [hwindow, List.splitFirst_append hid]
    have hjoined : window = String.ofList id ++ "/" ++ String.ofList passkey := by
      rw [← String.toList_inj, hwindow]
      simp
    have hok := Parses.ok (hjoined ▸ h) (by rwa [String.toList_ofList])
    rwa [String.toList_ofList] at hok
  · rw [List.splitFirst_eq_none.mpr hsep]
    exact .missingPasskey h hsep

theorem parseIdpasskey_parses (text : String) : Parses text (parseIdpasskey text) := by
  cases hfind : List.findWord Char.utf8Size marker.toList text.toList with
  | none =>
      simp only [parseIdpasskey, hfind]
      exact .noMarker ((List.findWord_eq_none Char.utf8Size).mp hfind)
  | some idx =>
      obtain ⟨before, hbefore, -⟩ := (List.findWord_eq_some Char.utf8Size).mp hfind
      obtain ⟨noise, rfl⟩ : ∃ noise : String, before = noise.toList :=
        ⟨String.ofList before, String.toList_ofList.symm⟩
      cases hrange : text.getRange (noise.utf8ByteSize + marker.utf8ByteSize)
          (noise.utf8ByteSize + marker.utf8ByteSize + 16 + 1 + 32) with
      | some window => exact ((getRange_eq_window hbefore).mp hrange).parses
      | none =>
          simp only [parseIdpasskey, findMarker_eq hbefore, hrange]
          refine .truncated hbefore fun window hwindow => ?_
          rw [(getRange_eq_window hbefore).mpr hwindow] at hrange
          cases hrange

/-! ### The keys of a session -/

/-- The keys stand in the window of the output. -/
def ReadFrom (output : String) (keys : SessionKeys) : Prop :=
  ∃ noise passkey, IsWindow output noise (keys.id ++ "/" ++ passkey) ∧ '/' ∉ keys.id.toList
    ∧ keys.passkey = cleanPasskey passkey.toList

theorem readFrom_of_parse {output id passkey : String}
    (h : parseIdpasskey output = .ok (id, passkey)) : ReadFrom output ⟨id, passkey⟩ := by
  have hparses := parseIdpasskey_parses output
  rw [h] at hparses
  cases hparses with
  | ok hwindow hid => exact ⟨_, _, hwindow, hid, rfl⟩

theorem setupSsh_eq_ok {env : String → Option String}
    {idDraw passkeyDraw : Nat → Fin alphanum.length} {spawn : List String → Except String SshChild}
    {opts : SshSetupOptions} {keys : SessionKeys}
    (h : setupSsh env idDraw passkeyDraw spawn opts = .ok keys) :
    ∃ output, runSshInteractive spawn (setupArgs env idDraw passkeyDraw opts) = .ok output
      ∧ ReadFrom output keys ∧ keys.id ≠ "" ∧ keys.passkey ≠ "" := by
  simp only [setupSsh] at h
  split at h
  · cases h
  · next output houtput =>
      split_ifs at h
      split at h
      · cases h
      · next id passkey hparse =>
          split_ifs at h with hempty
          obtain rfl := Except.ok.inj h
          rw [not_or] at hempty
          exact ⟨output, houtput, readFrom_of_parse hparse, hempty⟩

/-! ### Credentials -/

theorem marker_unbordered : List.Unbordered marker.toList := by
  show List.Unbordered ('I' :: "DPASSKEY:".toList)
  exact List.unbordered_cons (by decide)

/-- The text begins with so many bytes that are characters of their own. -/
def BeginsAscii (size : Nat) (text : String) : Prop :=
  ∃ filler rest, text = filler ++ rest ∧ filler.utf8ByteSize = size
    ∧ ∀ c ∈ filler.toList, IsAscii c

/-- **The bootstrap credentials are extracted exactly.** What stands before the marker and what stands
behind the passkey does not come into them, even where the window takes it in; and whatever the text is,
it is cut between characters only. -/
theorem credentials_extracted :
    (∀ noise id passkey after : String, ¬ marker.toList <:+: noise.toList →
      id.length ≤ 16 → (∀ c ∈ id.toList, IsAscii c ∧ c ≠ '/') →
      passkey.length = 32 → (∀ c ∈ passkey.toList, c.isAlphanum) →
      BeginsAscii (16 - id.length) after →
        parseIdpasskey (noise ++ marker ++ id ++ "/" ++ passkey ++ after) = .ok (id, passkey))
      ∧ ∀ text, Parses text (parseIdpasskey text) := by
  refine ⟨fun noise id passkey after hnoise hlength hid hkey halphanum hafter => ?_,
    parseIdpasskey_parses⟩
  obtain ⟨filler, rest, rfl, hsize, hfiller⟩ := hafter
  have hsep : '/' ∉ id.toList := fun hmem => (hid '/' hmem).2 rfl
  have hwindow : IsWindow (noise ++ marker ++ id ++ "/" ++ passkey ++ (filler ++ rest)) noise
      (id ++ "/" ++ passkey ++ filler) := by
    refine ⟨?_, ⟨rest, ?_⟩, ?_⟩
    · have hfirst := marker_unbordered.isFirst hnoise (id ++ "/" ++ passkey ++ (filler ++ rest)).toList
      simpa only [String.toList_append, List.append_assoc] using hfirst
    · simp only [String.append_assoc]
    · have hidSize := utf8ByteSize_of_ascii fun c hmem => (hid c hmem).1
      have hkeySize := utf8ByteSize_of_ascii fun c hmem => isAscii_of_isAlphanum (halphanum c hmem)
      have hsepSize : "/".utf8ByteSize = 1 := by decide
      simp only [String.utf8ByteSize_append]
      omega
  have htext : (id ++ "/" ++ passkey ++ filler).toList =
      id.toList ++ '/' :: (passkey.toList ++ filler.toList) := by
    simp
  rw [hwindow.parse_eq, htext, List.splitFirst_append hsep]
  simp only [cleanPasskey_append hkey halphanum, String.ofList_toList]

/-- The noise ends like the beginning of the marker, and the id leaves a byte of the window. -/
theorem credentials_extracted_short_id :
    parseIdpasskey ("Grüße\nIDPASS" ++ marker ++ "XXXabcdefghijkl" ++ "/"
        ++ "0123456789abcdef0123456789abcdef" ++ "\nmore") =
      .ok ("XXXabcdefghijkl", "0123456789abcdef0123456789abcdef") :=
  credentials_extracted.1 _ _ _ _ (by decide) (by decide)
    (List.forall_iff_forall_mem.mp (by decide)) (by decide) (List.forall_iff_forall_mem.mp (by decide))
    ⟨"\n", "more", by decide, by decide, List.forall_iff_forall_mem.mp (by decide)⟩

end EternalTerminal
