import EternalTerminal.Host

/-!
# Arguments that name a destination

A host that may carry a port has no colon, or is an IPv6 address in full; then the number of colons says
whether the last segment is a port. The parser gives back what such an argument was made of, and turns
away whatever has another number of colons or another last segment.
-/

namespace EternalTerminal

/-! ### Ports -/

/-- What reads as a `u16`: digits, with or without a sign, of a value below `2^16`. -/
def IsU16 (text : List Char) : Prop :=
  ∃ digits, (text = digits ∨ text = '+' :: digits) ∧ digits ≠ [] ∧ (∀ c ∈ digits, c.isDigit)
    ∧ Nat.ofDigitChars 10 digits 0 < 2 ^ 16

theorem le_ofDigitChars (digits : List Char) (value : Nat) :
    value ≤ Nat.ofDigitChars 10 digits value := by
  induction digits generalizing value with
  | nil => rw [Nat.ofDigitChars_nil]
  | cons c digits ih =>
      rw [Nat.ofDigitChars_cons]
      exact le_trans (by omega) (ih _)

/-- The loop reads exactly the digits whose value fits; no step before the last can be too large. -/
theorem parseDigits_eq_some {digits : List Char} {value n : Nat} (hvalue : value < 2 ^ 16) :
    parseDigits value digits = some n ↔
      (∀ c ∈ digits, c.isDigit) ∧ n = Nat.ofDigitChars 10 digits value ∧ n < 2 ^ 16 := by
  induction digits generalizing value with
  | nil =>
      rw [parseDigits, Option.some.injEq, Nat.ofDigitChars_nil]
      constructor
      · rintro rfl
        exact ⟨by simp, rfl, hvalue⟩
      · exact fun h => h.2.1.symm
  | cons c digits ih =>
      rw [parseDigits, List.forall_mem_cons, Nat.ofDigitChars_cons]
      by_cases hdigit : c.isDigit
      · by_cases hnext : 10 * value + (c.toNat - '0'.toNat) < 2 ^ 16
        · simp only [hdigit, if_true, hnext, ih hnext, true_and]
        · simp only [hdigit, if_true, hnext, if_false, true_and]
          refine iff_of_false nofun fun h => ?_
          have hle := le_ofDigitChars digits (10 * value + (c.toNat - '0'.toNat))
          omega
      · simp only [hdigit, Bool.false_eq_true, if_false, false_and]
        exact iff_of_false nofun id

theorem plus_not_isDigit : ¬ ('+').isDigit := by decide

theorem parseU16_isSome_iff {text : List Char} : (parseU16 text).isSome ↔ IsU16 text := by
  have hdigits : ∀ digits : List Char, (parseDigits 0 digits).isSome ↔
      (∀ c ∈ digits, c.isDigit) ∧ Nat.ofDigitChars 10 digits 0 < 2 ^ 16 := by
    intro digits
    rw [Option.isSome_iff_exists]
    constructor
    · intro h
      obtain ⟨n, hparse⟩ := h
      obtain ⟨hall, rfl, hlt⟩ := (parseDigits_eq_some (by decide)).mp hparse
      exact ⟨hall, hlt⟩
    · exact fun h => ⟨_, (parseDigits_eq_some (by decide)).mpr ⟨h.1, rfl, h.2⟩⟩
  simp only [parseU16]
  by_cases hsign : text.head? = some '+'
  · obtain ⟨digits, rfl⟩ := List.head?_eq_some_iff.mp hsign
    rw [if_pos hsign, List.tail_cons]
    split_ifs with hnil
    · subst hnil
      apply iff_of_false nofun
      rintro ⟨digits, rfl | heq, hne, hall, -⟩
      · exact plus_not_isDigit (hall '+' List.mem_cons_self)
      · exact hne (List.cons.inj heq).2.symm
    · rw [Option.isSome_map, hdigits]
      constructor
      · exact fun h => ⟨digits, .inr rfl, hnil, h⟩
      · rintro ⟨others, rfl | heq, -, hall, hlt⟩
        · exact absurd (hall '+' List.mem_cons_self) plus_not_isDigit
        · rw [(List.cons.inj heq).2]
          exact ⟨hall, hlt⟩
  · rw [if_neg hsign]
    split_ifs with hnil
    · subst hnil
      apply iff_of_false nofun
      rintro ⟨digits, heq | heq, hne, -⟩
      · exact hne heq.symm
      · exact absurd heq nofun
    · rw [Option.isSome_map, hdigits]
      constructor
      · exact fun h => ⟨text, .inl rfl, hnil, h⟩
      · rintro ⟨digits, rfl | rfl, -, hall, hlt⟩
        · exact ⟨hall, hlt⟩
        · exact absurd rfl hsign

theorem parseU16_toDigits (port : UInt16) : parseU16 (Nat.toDigits 10 port.toNat) = some port := by
  have hall : ∀ c ∈ Nat.toDigits 10 port.toNat, c.isDigit :=
    fun c hmem => Nat.isDigit_of_mem_toDigits (by decide) (by decide) hmem
  have hsign : (Nat.toDigits 10 port.toNat).head? ≠ some '+' := by
    intro hhead
    exact plus_not_isDigit (hall '+' (List.mem_of_mem_head? hhead))
  have hparse : parseDigits 0 (Nat.toDigits 10 port.toNat) = some port.toNat := by
    refine (parseDigits_eq_some (by decide)).mpr ⟨hall, ?_, port.toNat_lt⟩
    rw [Nat.ofDigitChars_ten_toDigits]
  simp only [parseU16, if_neg hsign, Nat.toDigits_ne_nil, if_false, hparse, Option.map_some,
    UInt16.ofNat_toNat]

theorem not_mem_toDigits {c : Char} (h : ¬ c.isDigit) (n : Nat) : c ∉ Nat.toDigits 10 n :=
  fun hmem => h (Nat.isDigit_of_mem_toDigits (by decide) (by decide) hmem)

/-! ### Hosts -/

def IsUser (user : String) : Prop := user ≠ "" ∧ '@' ∉ user.toList

/-- A host that may carry a port. -/
def IsHost (host : String) : Prop :=
  host ≠ "" ∧ '@' ∉ host.toList ∧ (':' ∉ host.toList
    ∨ ∃ segments, segments.length = 8 ∧ List.Segments ':' segments
      ∧ host.toList = [':'].intercalate segments)

/-- What is left of the argument without the user. -/
def IsHostPart (hostArg part : String) : Prop :=
  ('@' ∉ part.toList ∧ hostArg = part)
    ∨ ∃ user : String, '@' ∉ user.toList ∧ hostArg = user ++ "@" ++ part

theorem splitPort_append {port : List Char} (h : ':' ∉ port) (defaultPort : UInt16)
    (host : List Char) :
    splitPort (host ++ ':' :: port) defaultPort =
      match parseU16 port with
      | some etPort => .ok (host, etPort)
      | none => .error (.msg "invalid port in host argument") := by
  cases hport : parseU16 port with
  | none => simp only [splitPort, List.splitLast_append h, hport]
  | some etPort => simp only [splitPort, List.splitLast_append h, hport]

theorem IsHost.parseHostPart_eq {host : String} (h : IsHost host) (defaultPort : UInt16) :
    parseHostPart host.toList defaultPort = .ok (host.toList, defaultPort) := by
  obtain ⟨-, -, hcolon | ⟨segments, hlength, hsegments, hjoined⟩⟩ := h
  · have hcount : host.toList.count ':' = 0 := List.count_eq_zero.mpr hcolon
    simp [parseHostPart, hcount]
  · have hcount : host.toList.count ':' = 7 := by
      rw [hjoined, hsegments.count_intercalate, hlength]
    have hdouble : ¬ [':', ':'] <:+: host.toList := hjoined ▸ hsegments.not_double
    simp [parseHostPart, hcount, hdouble]

theorem IsHost.parseHostPart_port {host : String} (h : IsHost host) (port defaultPort : UInt16) :
    parseHostPart (host.toList ++ ':' :: Nat.toDigits 10 port.toNat) defaultPort =
      .ok (host.toList, port) := by
  have hdigits : ':' ∉ Nat.toDigits 10 port.toNat := not_mem_toDigits (by decide) _
  have hsplit : splitPort (host.toList ++ ':' :: Nat.toDigits 10 port.toNat) defaultPort =
      .ok (host.toList, port) := by
    rw [splitPort_append hdigits, parseU16_toDigits]
  obtain ⟨-, -, hcolon | ⟨segments, hlength, hsegments, hjoined⟩⟩ := h
  · have hcount : (host.toList ++ ':' :: Nat.toDigits 10 port.toNat).count ':' = 1 := by
      rw [List.count_append, List.count_cons_self, List.count_eq_zero.mpr hcolon,
        List.count_eq_zero.mpr hdigits]
    rw [parseHostPart, if_pos hcount, hsplit]
  · have hnil : segments ≠ [] := List.ne_nil_of_length_eq_add_one hlength
    have hall : List.Segments ':' (segments ++ [Nat.toDigits 10 port.toNat]) := by
      intro part hmem
      rcases List.mem_append.mp hmem with hhost | hport
      · exact hsegments part hhost
      · obtain rfl := List.mem_singleton.mp hport
        exact ⟨Nat.toDigits_ne_nil, hdigits⟩
    have hwhole : host.toList ++ ':' :: Nat.toDigits 10 port.toNat =
        [':'].intercalate (segments ++ [Nat.toDigits 10 port.toNat]) := by
      rw [hjoined, List.intercalate_concat hnil]
    have hcount : (host.toList ++ ':' :: Nat.toDigits 10 port.toNat).count ':' = 8 := by
      rw [hwhole, hall.count_intercalate, List.length_append, hlength]
      rfl
    have hdouble : ¬ [':', ':'] <:+: host.toList ++ ':' :: Nat.toDigits 10 port.toNat :=
      hwhole ▸ hall.not_double
    simp only [parseHostPart, hcount, hdouble, hsplit]
    rfl

/-- An abbreviated address is the host, whatever its end looks like. -/
theorem parseHostPart_of_double {part : List Char} (h : [':', ':'] <:+: part)
    (defaultPort : UInt16) : parseHostPart part defaultPort = .ok (part, defaultPort) := by
  have hcount : 2 ≤ part.count ':' := h.sublist.count_le ':'
  have hone : part.count ':' ≠ 1 := by omega
  simp only [parseHostPart, hone, if_false, ge_iff_le, hcount, if_true, h]

theorem parseHostPart_of_count {part : List Char} (h : ¬ [':', ':'] <:+: part)
    (hcount : 2 ≤ part.count ':' ∧ part.count ':' ≤ 6 ∨ 8 < part.count ':') (defaultPort : UInt16) :
    parseHostPart part defaultPort =
      .error (.msg ("invalid host positional arg: " ++ String.ofList part)) := by
  have hone : part.count ':' ≠ 1 := by omega
  have htwo : 2 ≤ part.count ':' := by omega
  have hseven : part.count ':' ≠ 7 := by omega
  have height : part.count ':' ≠ 8 := by omega
  simp only [parseHostPart, hone, if_false, ge_iff_le, htwo, if_true, h, hseven, height]

theorem parseHostPart_of_last {host last : List Char} (h : ¬ [':', ':'] <:+: host ++ ':' :: last)
    (hcount : (host ++ ':' :: last).count ':' = 1 ∨ (host ++ ':' :: last).count ':' = 8)
    (hlast : ':' ∉ last) (hport : ¬ IsU16 last) (defaultPort : UInt16) :
    parseHostPart (host ++ ':' :: last) defaultPort =
      .error (.msg "invalid port in host argument") := by
  have hnone : parseU16 last = none := by
    rw [← Option.not_isSome_iff_eq_none, parseU16_isSome_iff]
    exact hport
  have hsplit := splitPort_append hlast defaultPort
  rw [hnone] at hsplit
  rcases hcount with hone | height
  · simp only [parseHostPart, hone, if_true]
    exact hsplit host
  · simp only [parseHostPart, height, h]
    exact hsplit host

/-! ### Arguments -/

section

variable (env : String → Option String) (defaultUser : Option String) (defaultPort : UInt16)

theorem parseDestination_user {user part : String} (h : '@' ∉ user.toList) :
    parseDestination env (user ++ "@" ++ part) defaultUser defaultPort =
      (parseHostPart part.toList defaultPort).map fun (host, etPort) =>
        ⟨if user = "" then localUsername env else user, String.ofList host, String.ofList host,
          etPort⟩ := by
  have htext : (user ++ "@" ++ part).toList = user.toList ++ '@' :: part.toList := by
    simp
  have hsplit : splitUser (user ++ "@" ++ part).toList defaultUser = (user, part.toList) := by
    rw [splitUser, htext, List.splitFirst_append h]
    simp
  simp only [parseDestination, hsplit]
  cases parseHostPart part.toList defaultPort <;> rfl

theorem parseDestination_noUser {part : String} (h : '@' ∉ part.toList) :
    parseDestination env part defaultUser defaultPort =
      (parseHostPart part.toList defaultPort).map fun (host, etPort) =>
        ⟨if defaultUser.getD "" = "" then localUsername env else defaultUser.getD "",
          String.ofList host, String.ofList host, etPort⟩ := by
  have hsplit : splitUser part.toList defaultUser = (defaultUser.getD "", part.toList) := by
    rw [splitUser, List.splitFirst_eq_none.mpr h]
  simp only [parseDestination, hsplit]
  cases parseHostPart part.toList defaultPort <;> rfl

theorem IsHostPart.parseDestination_eq {hostArg part : String} (h : IsHostPart hostArg part) :
    ∃ user, parseDestination env hostArg defaultUser defaultPort =
      (parseHostPart part.toList defaultPort).map fun (host, etPort) =>
        ⟨user, String.ofList host, String.ofList host, etPort⟩ := by
  obtain ⟨hpart, rfl⟩ | ⟨user, huser, rfl⟩ := h
  · exact ⟨_, parseDestination_noUser env defaultUser defaultPort hpart⟩
  · exact ⟨_, parseDestination_user env defaultUser defaultPort huser⟩

end

/-- **The parser inverts the grammar of arguments.** User, host and port come back as they were put
together, the defaults take the place of what is missing, an abbreviated IPv6 address is the whole host,
and what has another number of colons or no port at its end is turned away. -/
theorem parse_destination_inverts (env : String → Option String) (defaultUser : Option String)
    (defaultPort : UInt16) :
    (∀ (user host : String) (port : UInt16), IsUser user → IsHost host →
        parseDestination env (user ++ "@" ++ host ++ ":" ++ toString port) defaultUser defaultPort =
            .ok ⟨user, host, host, port⟩
          ∧ parseDestination env (user ++ "@" ++ host) defaultUser defaultPort =
            .ok ⟨user, host, host, defaultPort⟩)
      ∧ (∀ (user host : String) (port : UInt16), user ≠ "" → IsHost host →
        parseDestination env (host ++ ":" ++ toString port) (some user) defaultPort =
            .ok ⟨user, host, host, port⟩
          ∧ parseDestination env host (some user) defaultPort = .ok ⟨user, host, host, defaultPort⟩)
      ∧ ∀ hostArg part : String, IsHostPart hostArg part →
        ([':', ':'] <:+: part.toList → ∃ user,
            parseDestination env hostArg defaultUser defaultPort =
              .ok ⟨user, part, part, defaultPort⟩)
          ∧ (¬ [':', ':'] <:+: part.toList →
            (2 ≤ part.toList.count ':' ∧ part.toList.count ':' ≤ 6 ∨ 8 < part.toList.count ':') →
            parseDestination env hostArg defaultUser defaultPort =
              .error (.msg ("invalid host positional arg: " ++ part)))
          ∧ (¬ [':', ':'] <:+: part.toList →
            part.toList.count ':' = 1 ∨ part.toList.count ':' = 8 →
            ∀ host last, part.toList = host ++ ':' :: last → ':' ∉ last → ¬ IsU16 last →
            parseDestination env hostArg defaultUser defaultPort =
              .error (.msg "invalid port in host argument")) := by
  have hport : ∀ (host : String) (port : UInt16),
      (host ++ ":" ++ toString port).toList = host.toList ++ ':' :: Nat.toDigits 10 port.toNat := by
    intro host port
    have hdigits : (toString port).toList = Nat.toDigits 10 port.toNat := Nat.toList_repr
    simp [hdigits]
  refine ⟨fun user host port huser hhost => ⟨?_, ?_⟩, fun user host port huser hhost => ⟨?_, ?_⟩,
    fun hostArg part hpart => ?_⟩
  · have hassoc : user ++ "@" ++ host ++ ":" ++ toString port =
        user ++ "@" ++ (host ++ ":" ++ toString port) := by
      simp only [String.append_assoc]
    rw [hassoc, parseDestination_user env defaultUser defaultPort huser.2, hport,
      hhost.parseHostPart_port]
    simp [Except.map, huser.1]
  · rw [parseDestination_user env defaultUser defaultPort huser.2, hhost.parseHostPart_eq]
    simp [Except.map, huser.1]
  · have hnoUser : '@' ∉ (host ++ ":" ++ toString port).toList := by
      have hdigits : '@' ∉ Nat.toDigits 10 port.toNat := not_mem_toDigits (by decide) _
      rw [hport]
      simp [hhost.2.1, hdigits]
    rw [parseDestination_noUser env (some user) defaultPort hnoUser, hport, hhost.parseHostPart_port]
    simp [Except.map, huser]
  · rw [parseDestination_noUser env (some user) defaultPort hhost.2.1, hhost.parseHostPart_eq]
    simp [Except.map, huser]
  · obtain ⟨user, hparse⟩ := hpart.parseDestination_eq env defaultUser defaultPort
    rw [hparse]
    refine ⟨fun hdouble => ⟨user, ?_⟩, fun hdouble hcount => ?_,
      fun hdouble hcount host last hsplit hlast hu16 => ?_⟩
    · rw [parseHostPart_of_double hdouble]
      simp [Except.map]
    · rw [parseHostPart_of_count hdouble hcount]
      simp [Except.map]
    · rw [hsplit] at hdouble hcount ⊢
      rw [parseHostPart_of_last hdouble hcount hlast hu16]
      rfl

/-- A port behind an IPv6 address in full. -/
theorem parse_destination_inverts_ipv6 :
    parseDestination (fun _ => none) "me@1:2:3:4:5:6:7:8:2022" none 22 =
      .ok ⟨"me", "1:2:3:4:5:6:7:8", "1:2:3:4:5:6:7:8", 2022⟩ := by
  refine ((parse_destination_inverts (fun _ => none) none 22).1 "me" "1:2:3:4:5:6:7:8" 2022
    ⟨by decide, by decide⟩ ⟨by decide, by decide, .inr
      ⟨[['1'], ['2'], ['3'], ['4'], ['5'], ['6'], ['7'], ['8']], rfl, ?_, rfl⟩⟩).1
  intro part hmem
  simp only [List.mem_cons, List.not_mem_nil, or_false] at hmem
  rcases hmem with rfl | rfl | rfl | rfl | rfl | rfl | rfl | rfl <;> decide

end EternalTerminal
