import CollabMarkdown.CString.Signed
import CollabMarkdown.Process.Registry

/-!
# Numbers on the command line

The client takes the pid of the server from its command line, the server its update
interval.  Both read a 64-bit `long`, test its sign, and store it in 32 bits.  Every
string that denotes a positive number is accepted, so the stored number is the denoted
one exactly if that fits.
-/

namespace CollabMarkdown.Client

open CollabMarkdown.CString
open CollabMarkdown.Process

/-! ## The parsers -/

/-- The body the two parsers share: whether the string is accepted, and the variable
behind `out`.  A NULL pointer is absent. -/
def parsePositive (s : Option Text) (out : Option Int32) : Bool × Option Int32 :=
  match s, out with
  | some s, some _ =>
      let (value, rest) := strtol s
      if ¬rest.isEmpty ∨ value ≤ 0 then
        (false, out)
      else
        (true, some value.toInt32)
  | _, _ => (false, out)

/-- `pid_t` has 32 bits. -/
def parsePid (s : Option Text) (out : Option Int32) : Bool × Option Int32 :=
  parsePositive s out

/-- `parse_interval_ms` of the server; `int` has 32 bits. -/
def parseIntervalMs (s : Option Text) (out : Option Int32) : Bool × Option Int32 :=
  parsePositive s out

/-! ## The connect signal -/

/-- Whom a call of `kill` signals. -/
inductive Target where
  | process (pid : Pid)
  | ownGroup
  | everyone
  | group (id : Pid)
  deriving DecidableEq, Repr

/-- The meaning of the first argument of `kill`. -/
def killTarget (pid : Int32) : Target :=
  if 0 < pid then .process pid.toInt
  else if pid = 0 then .ownGroup
  else if pid = -1 then .everyone
  else .group (-pid.toInt)

/-- How `main` of the client begins: with a line on standard error, or with a call of
`kill`. -/
inductive Start where
  | failed (message : Text)
  | kills (target : Target)
  deriving DecidableEq, Repr

/-- `main` of the client up to the connect signal.  `serverPid` is its variable before
anything is stored there, and `blocked` answers whether the ready signal could be
blocked, with the text of the error if not. -/
def connect (serverPid : Int32) (blocked : Except Text Unit) (program : Text)
    (arguments : List Text) : Start :=
  match arguments with
  | [pidS, _username] =>
      match parsePid (some pidS) (some serverPid) with
      | (true, some pid) =>
          match blocked with
          | .error reason => .failed (ascii "sigprocmask: " ++ reason ++ [newline])
          | .ok () => .kills (killTarget pid)
      | _ => .failed (ascii "Invalid server_pid\n")
  | _ => .failed (ascii "Usage: " ++ program ++ ascii " <server_pid> <username>\n")

/-! ## What is accepted -/

variable {s : Text} {stale stored : Int32}

/-- The strings that denote a positive number pass the test of a parser. -/
theorem passes_iff :
    ¬(¬(strtol s).2.isEmpty ∨ (strtol s).1 ≤ 0) ↔ ∃ n, Denotes s n ∧ 0 < n := by
  rw [not_or, not_not, List.isEmpty_iff, Int64.not_le]
  constructor
  · rintro ⟨whole, positive⟩
    rcases strtol_rest_eq_nil_iff.mp whole with rfl | ⟨n, denotes⟩
    · exact absurd positive (by decide)
    · rw [strtol_of_denotes denotes] at positive
      exact ⟨n, denotes, ofIntClamp_pos_iff.mp positive⟩
  · rintro ⟨n, denotes, positive⟩
    rw [strtol_of_denotes denotes]
    exact ⟨rfl, ofIntClamp_pos_iff.mpr positive⟩

/-- Of a positive number the low bits are stored, once it is saturated. -/
theorem parsePositive_accepts {n : Int} (denotes : Denotes s n) (positive : 0 < n)
    (stale : Int32) :
    parsePositive (some s) (some stale) = (true, some (Int64.ofIntClamp n).toInt32) := by
  simp only [parsePositive]
  rw [if_neg (passes_iff.mpr ⟨n, denotes, positive⟩), strtol_of_denotes denotes]

/-- Nothing else is accepted. -/
theorem parsePositive_accepts_iff :
    parsePositive (some s) (some stale) = (true, some stored) ↔
      ∃ n, Denotes s n ∧ 0 < n ∧ stored = (Int64.ofIntClamp n).toInt32 := by
  constructor
  · intro accepted
    by_cases fails : ¬(strtol s).2.isEmpty ∨ (strtol s).1 ≤ 0
    · simp only [parsePositive, if_pos fails] at accepted
      cases accepted
    · obtain ⟨n, denotes, positive⟩ := passes_iff.mp fails
      rw [parsePositive_accepts denotes positive] at accepted
      exact ⟨n, denotes, positive, (Option.some.inj (Prod.mk.inj accepted).2).symm⟩
  · rintro ⟨n, denotes, positive, rfl⟩
    exact parsePositive_accepts denotes positive stale

/-- A rejected string leaves the variable as it was. -/
theorem parsePositive_rejects (notPositive : ∀ n, Denotes s n → n ≤ 0) :
    parsePositive (some s) (some stale) = (false, some stale) := by
  simp only [parsePositive]
  rw [if_pos]
  by_contra passes
  obtain ⟨n, denotes, positive⟩ := passes_iff.mp passes
  exact absurd (notPositive n denotes) (Int.not_le.mpr positive)

/-- `kill` names a process exactly by a positive pid. -/
theorem killTarget_eq_process_iff {pid : Int32} {n : Pid} :
    killTarget pid = .process n ↔ 0 < pid ∧ n = pid.toInt := by
  rw [killTarget]
  split
  · next positive => simp [positive, eq_comm]
  · next other =>
      constructor
      · intro same
        split_ifs at same
      · exact fun named => absurd named.1 other

/-- The client signals exactly after both arguments are there, the pid is accepted and
the ready signal is blocked. -/
theorem connect_kills_iff {blocked : Except Text Unit} {program username : Text}
    {target : Target} :
    connect stale blocked program [s, username] = .kills target ↔
      ∃ pid, parsePid (some s) (some stale) = (true, some pid) ∧ blocked = .ok () ∧
        target = killTarget pid := by
  rw [connect]
  split
  · next pid accepted =>
      cases blocked with
      | error reason => simp
      | ok done => simp [accepted, eq_comm]
  · next rejected =>
      constructor
      · intro same
        cases same
      · rintro ⟨pid, accepted, -, -⟩
        exact absurd accepted (rejected pid)

/-! ## The narrowing -/

/-- A stored number is positive and the one the string denotes, and a number outside
the narrow type is rejected. -/
structure SurvivesNarrowing (parse : Option Text → Option Int32 → Bool × Option Int32)
    (s : Text) : Prop where
  stored : ∀ stale number, parse (some s) (some stale) = (true, some number) →
    0 < number ∧ Denotes s number.toInt
  rejected : ∀ stale n, Denotes s n → ¬(-2 ^ 31 ≤ n ∧ n < 2 ^ 31) →
    parse (some s) (some stale) = (false, some stale)

/-- The client signals no one but the process its argument names. -/
def SignalsNamed (s : Text) : Prop :=
  ∀ serverPid blocked program username target,
    connect serverPid blocked program [s, username] = .kills target →
      ∃ pid, Denotes s pid ∧ target = .process pid

/-- The string denotes no number above the narrow type. -/
def DenotesNarrow (s : Text) : Prop :=
  ∀ n, Denotes s n → n < 2 ^ 31

/-- What is stored for a number that fits. -/
theorem stored_of_denotesNarrow (narrow : DenotesNarrow s)
    (accepted : parsePositive (some s) (some stale) = (true, some stored)) :
    0 < stored ∧ Denotes s stored.toInt := by
  obtain ⟨n, denotes, positive, rfl⟩ := parsePositive_accepts_iff.mp accepted
  have kept := toInt_toInt32_ofIntClamp (n := n) (by omega) (narrow n denotes)
  refine ⟨?_, kept.symm ▸ denotes⟩
  rw [Int32.lt_iff_toInt_lt, kept]
  exact positive

theorem survivesNarrowing_iff (s : Text) :
    SurvivesNarrowing parsePositive s ↔ DenotesNarrow s := by
  constructor
  · intro survives n denotes
    by_contra wide
    have rejected := survives.rejected 0 n denotes fun fits => wide fits.2
    have accepted := parsePositive_accepts denotes (by omega) 0
    rw [rejected] at accepted
    cases accepted
  · intro narrow
    refine ⟨fun stale number => stored_of_denotesNarrow narrow, ?_⟩
    intro stale n denotes outside
    apply parsePositive_rejects
    intro k other
    have below := narrow n denotes
    obtain rfl := denotes.unique other
    omega

theorem signalsNamed_iff (s : Text) : SignalsNamed s ↔ DenotesNarrow s := by
  constructor
  · intro signals n denotes
    by_contra wide
    have accepted := parsePositive_accepts denotes (by omega) 0
    obtain ⟨pid, named, target⟩ := signals 0 (.ok ()) [] [] _
      (connect_kills_iff.mpr ⟨_, accepted, rfl, rfl⟩)
    -- The process signalled has a pid of 32 bits, the one named has none.
    obtain ⟨-, rfl⟩ := killTarget_eq_process_iff.mp target
    have bound := Int32.toInt_lt (Int64.ofIntClamp n).toInt32
    rw [named.unique denotes] at bound
    exact wide bound
  · intro narrow stale blocked program username target kills
    obtain ⟨pid, accepted, -, rfl⟩ := connect_kills_iff.mp kills
    obtain ⟨positive, denotes⟩ := stored_of_denotesNarrow narrow accepted
    exact ⟨pid.toInt, denotes, killTarget_eq_process_iff.mpr ⟨positive, rfl⟩⟩

/-- The pid that a server prints is the one the client signals. -/
theorem connect_decimal {n : Nat} (positive : 0 < n) (fits : n < 2 ^ 31) (stale : Int32)
    (program username : Text) :
    connect stale (.ok ()) program [decimal n, username] = .kills (.process n) := by
  have denotes := denotes_decimal n
  have narrow : DenotesNarrow (decimal n) := by
    intro k other
    rw [other.unique denotes]
    exact_mod_cast fits
  have accepted := parsePositive_accepts denotes (by exact_mod_cast positive) stale
  obtain ⟨above, stored⟩ := stored_of_denotesNarrow narrow accepted
  refine connect_kills_iff.mpr ⟨_, accepted, rfl, ?_⟩
  exact (killTarget_eq_process_iff.mpr ⟨above, denotes.unique stored⟩).symm

/-- The number on the command line survives in either program, and the client signals
the process it names, exactly if the string denotes no number above the narrow type. -/
theorem commandLine_number_survives_iff (s : Text) :
    (SurvivesNarrowing parsePid s ↔ DenotesNarrow s) ∧
      (SurvivesNarrowing parseIntervalMs s ↔ DenotesNarrow s) ∧
      (SignalsNamed s ↔ DenotesNarrow s) :=
  ⟨survivesNarrowing_iff s, survivesNarrowing_iff s, signalsNamed_iff s⟩

/-- A pid of ten digits signals every process, and an interval of ten digits is zero. -/
theorem commandLine_number_wraps :
    parsePid (some (ascii "4294967295")) (some 0) = (true, some (-1)) ∧
      connect 0 (.ok ()) (ascii "client") [ascii "4294967295", ascii "eve"] =
        .kills .everyone ∧
      parseIntervalMs (some (ascii "4294967296")) (some 0) = (true, some 0) ∧
      ¬SurvivesNarrowing parsePid (ascii "4294967295") ∧
      ¬SurvivesNarrowing parseIntervalMs (ascii "4294967296") ∧
      ¬SignalsNamed (ascii "4294967295") := by
  have pid : parsePid (some (ascii "4294967295")) (some 0) = (true, some (-1)) := by decide
  have kills : connect 0 (.ok ()) (ascii "client") [ascii "4294967295", ascii "eve"] =
      .kills .everyone := by decide
  have interval : parseIntervalMs (some (ascii "4294967296")) (some 0) = (true, some 0) := by
    decide
  have wide {n : Nat} (above : 2 ^ 31 ≤ n) : ¬DenotesNarrow (decimal n) := by
    intro narrow
    have bound := narrow _ (denotes_decimal n)
    omega
  have broadcast : ¬DenotesNarrow (ascii "4294967295") := @wide 4294967295 (by decide)
  have zero : ¬DenotesNarrow (ascii "4294967296") := @wide 4294967296 (by decide)
  exact ⟨pid, kills, interval, fun survives => broadcast ((survivesNarrowing_iff _).mp survives),
    fun survives => zero ((survivesNarrowing_iff _).mp survives),
    fun signals => broadcast ((signalsNamed_iff _).mp signals)⟩

end CollabMarkdown.Client
