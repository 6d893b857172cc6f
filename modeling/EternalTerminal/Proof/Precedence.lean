import EternalTerminal.CommandLine
import EternalTerminal.Proof.Credentials
import EternalTerminal.Proof.Destination

/-!
# Which user and which port

DESTINATION may name a user and a port, and so may the options. The parser prefers the user of
DESTINATION to the option, which is documented the other way round; and the port that it finds is lost
when colons in the user make DESTINATION look like one without a port.
-/

namespace EternalTerminal

/-! ### What DESTINATION names -/

def userPart (destination : String) : Option String :=
  (destination.toList.splitFirst '@').map fun (user, _) => String.ofList user

def hostPart (destination : String) : List Char :=
  ((destination.toList.splitFirst '@').map Prod.snd).getD destination.toList

/-- The colons that are counted only while the user is still there. -/
def userColons (destination : String) : Nat :=
  ((userPart destination).map fun user => user.toList.count ':').getD 0

/-- The port behind a host. -/
def namedPort (part : List Char) : Option UInt16 :=
  if part.count ':' = 1 ∨ part.count ':' = 8 ∧ ¬ [':', ':'] <:+: part then
    (part.splitLast ':').bind fun (_, port) => parseU16 port
  else none

theorem splitUser_eq (destination : String) (defaultUser : Option String) :
    splitUser destination.toList defaultUser =
      ((userPart destination).getD (defaultUser.getD ""), hostPart destination) := by
  rw [splitUser, userPart, hostPart]
  cases destination.toList.splitFirst '@' <;> rfl

theorem count_destination (destination : String) :
    destination.toList.count ':' = userColons destination + (hostPart destination).count ':' := by
  rw [userColons, userPart, hostPart]
  cases hsplit : destination.toList.splitFirst '@' with
  | none => simp
  | some parts =>
      obtain ⟨htext, -⟩ := List.splitFirst_eq_some.mp hsplit
      rw [htext, List.count_append, List.count_cons_of_ne (by decide)]
      simp

theorem splitPort_spec (part : List Char) :
    (∃ e, ∀ defaultPort, splitPort part defaultPort = .error e)
      ∨ ∃ host, ∀ defaultPort, splitPort part defaultPort =
        .ok (host, ((part.splitLast ':').bind fun (_, port) => parseU16 port).getD defaultPort) := by
  cases hsplit : part.splitLast ':' with
  | none =>
      refine .inr ⟨part, fun defaultPort => ?_⟩
      simp only [splitPort, hsplit, Option.bind_none, Option.getD_none]
  | some parts =>
      cases hport : parseU16 parts.2 with
      | none =>
          refine .inl ⟨.msg "invalid port in host argument", fun defaultPort => ?_⟩
          simp only [splitPort, hsplit, hport]
      | some port =>
          refine .inr ⟨parts.1, fun defaultPort => ?_⟩
          simp only [splitPort, hsplit, hport, Option.bind_some, Option.getD_some]

/-- Whether the host part is accepted does not depend on the default, which only stands in for the port. -/
theorem parseHostPart_spec (part : List Char) :
    (∃ e, ∀ defaultPort, parseHostPart part defaultPort = .error e)
      ∨ ∃ host, ∀ defaultPort,
        parseHostPart part defaultPort = .ok (host, (namedPort part).getD defaultPort) := by
  by_cases hone : part.count ':' = 1
  · simp only [parseHostPart, namedPort, hone, if_true, true_or]
    exact splitPort_spec part
  · by_cases hdouble : [':', ':'] <:+: part
    · have hnone : namedPort part = none := by simp [namedPort, hone, hdouble]
      refine .inr ⟨part, fun defaultPort => ?_⟩
      rw [parseHostPart_of_double hdouble, hnone, Option.getD_none]
    · by_cases height : part.count ':' = 8
      · simp only [parseHostPart, namedPort, height, hdouble]
        exact splitPort_spec part
      · have hnone : namedPort part = none := by simp [namedPort, hone, height]
        simp only [parseHostPart, hone, height, hdouble, hnone, if_false, Option.getD_none]
        split_ifs
        · exact .inr ⟨part, fun _ => rfl⟩
        · exact .inl ⟨_, fun _ => rfl⟩
        · exact .inr ⟨part, fun _ => rfl⟩

/-- The user that the parser takes: that of DESTINATION comes first. -/
def parsedUser (env : String → Option String) (destination : String) (defaultUser : Option String) :
    String :=
  let user := (userPart destination).getD (defaultUser.getD "")
  if user = "" then localUsername env else user

theorem parseDestination_spec {env : String → Option String} {destination : String}
    {defaultUser : Option String} {defaultPort : UInt16} {dest : Destination}
    (h : parseDestination env destination defaultUser defaultPort = .ok dest) :
    dest.user = parsedUser env destination defaultUser
      ∧ dest.etPort = (namedPort (hostPart destination)).getD defaultPort
      ∧ ∀ port, parseDestination env destination defaultUser port =
        .ok { dest with etPort := (namedPort (hostPart destination)).getD port } := by
  simp only [parseDestination, splitUser_eq] at h ⊢
  obtain ⟨e, herror⟩ | ⟨host, hok⟩ := parseHostPart_spec (hostPart destination)
  · rw [herror] at h
    cases h
  · rw [hok] at h
    obtain rfl := Except.ok.inj h
    refine ⟨rfl, rfl, fun port => ?_⟩
    rw [hok]

/-! ### What the options should do -/

namespace Cli

/-- The option, else the user of DESTINATION, else the local user. -/
def expectedUser (env : String → Option String) (cli : Cli) : String :=
  (cli.username.or ((userPart cli.host).filter (· ≠ ""))).getD (localUsername env)

/-- The port of DESTINATION, else the option. -/
def expectedPort (cli : Cli) : UInt16 := (namedPort (hostPart cli.host)).getD cli.port

/-- Where the option and DESTINATION both give a user, it is the same. -/
def UserAgrees (env : String → Option String) (cli : Cli) : Prop :=
  ∀ user named, cli.username = some user → userPart cli.host = some named →
    (if named = "" then localUsername env else named) = user

/-- The port of DESTINATION is that of the option, or is seen with the user in front of it too. -/
def PortAgrees (cli : Cli) : Prop :=
  ∀ port, namedPort (hostPart cli.host) = some port → port = cli.port
    ∨ userColons cli.host = 0
    ∨ userColons cli.host = 7 ∧ (hostPart cli.host).count ':' = 1

/-! ### What they do -/

theorem parsedUser_eq_iff {env : String → Option String} {cli : Cli} (huser : cli.username ≠ some "") :
    parsedUser env cli.host cli.username = cli.expectedUser env ↔ cli.UserAgrees env := by
  simp only [parsedUser, expectedUser, UserAgrees]
  cases hname : cli.username with
  | none =>
      refine iff_of_true ?_ fun user named husername => by cases husername
      cases userPart cli.host with
      | none => simp
      | some named => by_cases hempty : named = "" <;> simp [Option.filter_some, hempty]
  | some user =>
      have hne : user ≠ "" := fun heq => huser (by rw [hname, heq])
      cases userPart cli.host with
      | none => simp [hne]
      | some named => simp

theorem patchPort_eq (cli : Cli) (dest : Destination) :
    cli.patchPort dest =
      if cliHostHasExplicitPort cli.host.toList then dest else { dest with etPort := cli.port } := by
  rw [patchPort]
  cases cliHostHasExplicitPort cli.host.toList <;> simp

theorem cliHostHasExplicitPort_iff (host : List Char) :
    cliHostHasExplicitPort host = true ↔ host.count ':' = 1 ∨ host.count ':' = 8 := by
  simp only [cliHostHasExplicitPort]
  split_ifs with hone height
  · simp [hone]
  · simp [height]
  · simp [hone, height]

theorem count_of_namedPort {part : List Char} {port : UInt16} (h : namedPort part = some port) :
    part.count ':' = 1 ∨ part.count ':' = 8 := by
  rw [namedPort] at h
  split_ifs at h with hcount
  exact hcount.imp_right And.left

/-- A port that is found is kept unless the colons before it hide it. -/
theorem patchPort_etPort_iff {cli : Cli} {dest : Destination}
    (hport : dest.etPort = cli.expectedPort) :
    (cli.patchPort dest).etPort = cli.expectedPort ↔ cli.PortAgrees := by
  rw [patchPort_eq, PortAgrees]
  cases hnamed : namedPort (hostPart cli.host) with
  | none =>
      have hdefault : cli.expectedPort = cli.port := by rw [expectedPort, hnamed, Option.getD_none]
      refine iff_of_true ?_ fun port hsome => by cases hsome
      split_ifs
      · exact hport
      · exact hdefault.symm
  | some port =>
      have hfound : cli.expectedPort = port := by rw [expectedPort, hnamed, Option.getD_some]
      have hcount := count_of_namedPort hnamed
      have hseen := cliHostHasExplicitPort_iff cli.host.toList
      rw [count_destination] at hseen
      split_ifs with hexplicit
      · refine iff_of_true hport fun other hother => .inr ?_
        have htwo := hseen.mp hexplicit
        omega
      · rw [hfound]
        have hhidden := mt hseen.mpr hexplicit
        constructor
        · rintro rfl other hother
          exact .inl (Option.some.inj hother).symm
        · intro hagrees
          rcases hagrees port rfl with heq | hzero | hseven
          · exact heq.symm
          · omega
          · omega

theorem plan_of_parsed {env : String → Option String} {cli : Cli} {dest : Destination}
    (h : parseDestination env cli.host cli.username cli.port = .ok dest) :
    ∃ plan, cli.plan env = .ok plan ∧ plan.setup.user = dest.user
      ∧ (cli.jumphost = none → plan.connectPort = (cli.patchPort dest).etPort) := by
  have hdest : cli.destination env = .ok (cli.patchPort dest) := by rw [destination, h]
  rw [plan, hdest]
  refine ⟨_, rfl, ?_, fun hjump => ?_⟩
  · rw [patchPort_eq]
    show (setupOptions cli _).user = _
    split_ifs <;> rfl
  · simp only [hjump]

end Cli

/-- A session is launched on the etserver of the plan, which has answered, with keys that were read from
what `ssh` printed. -/
theorem realMain_eq_ok {env : String → Option String} {ping : String → UInt16 → Bool}
    {idDraw passkeyDraw : Nat → Fin alphanum.length} {spawn : List String → Except String SshChild}
    {cli : Cli} {launch : Launch}
    (h : realMain env ping idDraw passkeyDraw spawn cli = .ok launch) :
    ∃ plan, cli.plan env = .ok plan ∧ launch.host = plan.connectHost ∧ launch.port = plan.connectPort
      ∧ launch.options = plan.options ∧ ping launch.host launch.port = true
      ∧ ∃ output, runSshInteractive spawn (setupArgs env idDraw passkeyDraw plan.setup) = .ok output
        ∧ ReadFrom output launch.keys := by
  simp only [realMain] at h
  split at h
  · cases h
  · next plan hplan =>
      split_ifs at h with hping
      split at h
      · cases h
      · next keys hkeys =>
          obtain rfl := Except.ok.inj h
          obtain ⟨output, houtput, hread, -⟩ := setupSsh_eq_ok hkeys
          exact ⟨plan, hplan, rfl, rfl, rfl, hping, output, houtput, hread⟩

/-- **Which user and which port are used.** DESTINATION is accepted with any `-p`, and the port is the one
it names or else the default. The user of the bootstrap is the one that the options document exactly when
`-u` and DESTINATION do not name different ones, and the port that is connected to is the one of
DESTINATION, or else that of `-p`, exactly when the colons of the user do not hide a port that is not that
of `-p`. -/
theorem precedence_iff {env : String → Option String} {cli : Cli} {dest : Destination}
    (hdest : parseDestination env cli.host cli.username cli.port = .ok dest)
    (huser : cli.username ≠ some "") :
    (∀ port, parseDestination env cli.host cli.username port =
        .ok { dest with etPort := (namedPort (hostPart cli.host)).getD port })
      ∧ ∃ plan, cli.plan env = .ok plan
        ∧ (plan.setup.user = cli.expectedUser env ↔ cli.UserAgrees env)
        ∧ (cli.jumphost = none → (plan.connectPort = cli.expectedPort ↔ cli.PortAgrees)) := by
  obtain ⟨hparsedUser, hparsedPort, hany⟩ := parseDestination_spec hdest
  obtain ⟨plan, hplan, hplanUser, hplanPort⟩ := Cli.plan_of_parsed hdest
  refine ⟨hany, plan, hplan, ?_, fun hjump => ?_⟩
  · rw [hplanUser, hparsedUser]
    exact Cli.parsedUser_eq_iff huser
  · rw [hplanPort hjump]
    exact Cli.patchPort_etPort_iff hparsedPort

/-- The same user twice, and a port in DESTINATION. -/
theorem precedence_iff_same_user :
    let cli : Cli := { host := "alice@host:2023", username := some "alice" }
    ∃ plan, cli.plan (fun _ => none) = .ok plan
      ∧ plan.setup.user = cli.expectedUser (fun _ => none) ∧ plan.connectPort = cli.expectedPort := by
  intro cli
  have hparse : parseDestination (fun _ => none) cli.host cli.username cli.port =
      .ok ⟨"alice", "host", "host", 2023⟩ := by decide
  obtain ⟨-, plan, hplan, huser, hport⟩ := precedence_iff hparse (by decide)
  have hpart : userPart cli.host = some "alice" := by decide
  have hagrees : cli.UserAgrees fun _ => none := by
    intro user named husername hnamed
    obtain rfl := Option.some.inj husername
    obtain rfl := Option.some.inj (hpart.symm.trans hnamed)
    exact if_neg (by decide)
  have hzero : cli.PortAgrees := fun port _ => .inr (.inl (by decide))
  exact ⟨plan, hplan, huser.mpr hagrees, (hport rfl).mpr hzero⟩

/-- `-u` does not replace the user of DESTINATION, whose colon hides the port. -/
theorem precedence_broken :
    let cli : Cli := { host := "alice:x@host:2023", username := some "bob" }
    ∃ dest plan, parseDestination (fun _ => none) cli.host cli.username cli.port = .ok dest
      ∧ cli.plan (fun _ => none) = .ok plan ∧ cli.jumphost = none
      ∧ (cli.expectedUser (fun _ => none) = "bob" ∧ plan.setup.user = "alice:x")
      ∧ (dest.etPort = 2023 ∧ cli.expectedPort = 2023 ∧ plan.connectPort = 2022) := by
  refine ⟨⟨"alice:x", "host", "host", 2023⟩, _, by decide, rfl, rfl, ⟨by decide, by decide⟩, ?_⟩
  decide

end EternalTerminal
