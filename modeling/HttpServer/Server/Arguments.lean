import HttpServer.Http.ContentLength
import HttpServer.Server.Blocking

/-!
# The command line

`Config::parse_args` reads its arguments from left to right; an option that
takes a value consumes the next one. The values pass through `std::stoi` and
`std::stoull`, and then through a cast where the field has another type: a port
is cut to 16 bits, and a negative queue size is taken modulo 2^64. Everywhere
else the fields are what was written (`asWritten_iff`).
-/

namespace HttpServer

namespace Arguments

structure Config extends HttpServer.Config where
  port : UInt16 := 8080
  backlog : Int := 128
  numWorkers : Int := 4
  maxQueueSize : UInt64 := 256
  readTimeoutSec : Int := 30
  writeTimeoutSec : Int := 30
  keepaliveTimeoutSec : Int := 30
  staticDir : Bytes := ascii "./static"

/-- The number that a text starts with, in the syntax of `std::stoi` and `std::stoull`. -/
def denoted (s : Bytes) : Option Int :=
  let (negative, digits) := numeral s
  if digits = [] then none else some (if negative then -(decimal digits) else decimal digits)

/-- `std::stoi(s)`; none stands for the exceptions `invalid_argument` and `out_of_range`. -/
def stoi (s : Bytes) : Option Int :=
  match denoted s with
  | some n => if -2 ^ 31 ≤ n ∧ n < 2 ^ 31 then some n else none
  | none => none

/-- One round of the loop, with the argument behind `arg` if there is one: the configuration, and whether that
argument was consumed. None stands for the exit of `--help` and for an exception. -/
def parseArg (config : Config) (arg : Bytes) : Option Bytes → Option (Config × Bool)
  | some value =>
    if arg = ascii "--help" then none
    else if arg = ascii "--port" then
      (stoi value).map fun n => ({ config with port := UInt16.ofInt n }, true)
    else if arg = ascii "--workers" then
      (stoi value).map fun n => ({ config with numWorkers := n }, true)
    else if arg = ascii "--queue-size" then
      (stoull value).map fun n => ({ config with maxQueueSize := UInt64.ofNat n }, true)
    else if arg = ascii "--static-dir" then some ({ config with staticDir := value }, true)
    else if arg = ascii "--no-keepalive" then some ({ config with enableKeepalive := false }, false)
    else if arg = ascii "--timeout" then
      (stoi value).map fun t =>
        ({ config with readTimeoutSec := t, writeTimeoutSec := t, keepaliveTimeoutSec := t }, true)
    else some (config, false)
  | none =>
    if arg = ascii "--help" then none
    else if arg = ascii "--no-keepalive" then some ({ config with enableKeepalive := false }, false)
    else some (config, false)

def parseLoop (config : Config) : List Bytes → Option Config
  | [] => some config
  | [arg] => (parseArg config arg none).map Prod.fst
  | arg :: value :: rest =>
    match parseArg config arg (some value) with
    | some (config, true) => parseLoop config rest
    | some (config, false) => parseLoop config (value :: rest)
    | none => none

/-- `Config::parse_args` on the arguments, the program's name first. -/
def parseArgs (argv : List Bytes) : Option Config := parseLoop {} argv.tail

/-! ## What was written -/

/-- The options that take a value. -/
def valued : List Bytes :=
  [ascii "--port", ascii "--workers", ascii "--queue-size", ascii "--static-dir", ascii "--timeout"]

/-- The recognised options with their values, from left to right. -/
def occurrences : List Bytes → List (Bytes × Bytes)
  | [] => []
  | [_] => []
  | arg :: value :: rest =>
    if arg ∈ valued then (arg, value) :: occurrences rest else occurrences (value :: rest)

/-- The value of the last occurrence of an option. -/
def given (option : Bytes) (args : List Bytes) : Option Bytes :=
  (((occurrences args).filter fun o => o.1 == option).getLast?).map Prod.snd

/-- The numbers of a configuration that the command line sets. -/
inductive Field where
  | port | numWorkers | maxQueueSize | readTimeout | writeTimeout | keepaliveTimeout
  deriving DecidableEq

namespace Field

def option : Field → Bytes
  | port => ascii "--port"
  | numWorkers => ascii "--workers"
  | maxQueueSize => ascii "--queue-size"
  | readTimeout | writeTimeout | keepaliveTimeout => ascii "--timeout"

def get (config : Config) : Field → Int
  | port => config.port.toNat
  | numWorkers => config.numWorkers
  | maxQueueSize => config.maxQueueSize.toNat
  | readTimeout => config.readTimeoutSec
  | writeTimeout => config.writeTimeoutSec
  | keepaliveTimeout => config.keepaliveTimeoutSec

/-- The numbers that the field's type represents. -/
def Fits : Field → Int → Prop
  | port, n => 0 ≤ n ∧ n < 2 ^ 16
  | maxQueueSize, n => 0 ≤ n ∧ n < 2 ^ 64
  | _, n => -2 ^ 31 ≤ n ∧ n < 2 ^ 31

/-- What the field becomes when a value is read. -/
def read (value : Bytes) : Field → Option Int
  | port => (stoi value).map (· % 2 ^ 16)
  | maxQueueSize => (stoull value).map Int.ofNat
  | _ => stoi value

end Field

/-- Every field is the number that was written last, or its default, and no value was written that its field
cannot represent. -/
structure AsWritten (args : List Bytes) (config : Config) : Prop where
  fields : ∀ f : Field, match given f.option args with
    | some value => denoted value = some (f.get config)
    | none => f.get config = f.get {}
  fits : ∀ (f : Field) (value : Bytes), (f.option, value) ∈ occurrences args →
    ∀ n, denoted value = some n → f.Fits n

/-- The ports written are numbers of 16 bits, and the queue sizes are not negative. -/
def InRange (args : List Bytes) : Prop :=
  (∀ value, (ascii "--port", value) ∈ occurrences args → ∀ n, denoted value = some n → 0 ≤ n ∧ n < 2 ^ 16) ∧
    ∀ value, (ascii "--queue-size", value) ∈ occurrences args → ∀ n, denoted value = some n → 0 ≤ n

/-! ## One argument -/

theorem option_valued (f : Field) : f.option ∈ valued := by
  cases f <;> decide

theorem toNat_ofInt (n : Int) : ((UInt16.ofInt n).toNat : Int) = n % 2 ^ 16 := by
  have nonneg : 0 ≤ n % 2 ^ 16 := Int.emod_nonneg n (by decide)
  have small : n % 2 ^ 16 < 2 ^ 16 := Int.emod_lt_of_pos n (by decide)
  rw [UInt16.ofInt, UInt16.toNat_ofNat']
  omega

theorem stoull_lt {s : Bytes} {n : Nat} (h : stoull s = some n) : n < 2 ^ 64 := by
  rw [stoull_eq] at h
  split at h
  · cases h
  · rename_i fine
    cases h
    split <;> omega

/-- What the argument `arg` with `value` behind it does. -/
structure Parsed (config : Config) (arg value : Bytes) (config' : Config) (consumed : Bool) : Prop where
  consumed : consumed = true ↔ arg ∈ valued
  own : ∀ f : Field, f.option = arg → f.read value = some (f.get config')
  frame : ∀ f : Field, f.option ≠ arg → f.get config' = f.get config

/-- An argument that is the option of no field leaves the fields alone. -/
theorem Parsed.of_frame {config config' : Config} {arg value : Bytes} {consumed : Bool}
    (known : consumed = true ↔ arg ∈ valued) (other : ∀ f : Field, f.option ≠ arg)
    (same : ∀ f : Field, f.get config' = f.get config) : Parsed config arg value config' consumed where
  consumed := known
  own f own := absurd own (other f)
  frame f _ := same f

theorem parseArg_parsed {config config' : Config} {arg value : Bytes} {consumed : Bool}
    (h : parseArg config arg (some value) = some (config', consumed)) :
    Parsed config arg value config' consumed := by
  simp only [parseArg] at h
  split at h
  · cases h
  split at h
  · rename_i is
    subst is
    obtain ⟨n, read, eq⟩ := Option.map_eq_some_iff.1 h
    cases eq
    refine ⟨by decide, fun f own => ?_, fun f other => ?_⟩
    · cases f with
      | port => simp [Field.read, read, Field.get, toNat_ofInt]
      | _ => exact absurd own (by decide)
    · cases f with
      | port => exact absurd rfl other
      | _ => rfl
  split at h
  · rename_i is
    subst is
    obtain ⟨n, read, eq⟩ := Option.map_eq_some_iff.1 h
    cases eq
    refine ⟨by decide, fun f own => ?_, fun f other => ?_⟩
    · cases f with
      | numWorkers => exact read
      | _ => exact absurd own (by decide)
    · cases f with
      | numWorkers => exact absurd rfl other
      | _ => rfl
  split at h
  · rename_i is
    subst is
    obtain ⟨n, read, eq⟩ := Option.map_eq_some_iff.1 h
    cases eq
    refine ⟨by decide, fun f own => ?_, fun f other => ?_⟩
    · cases f with
      | maxQueueSize =>
        have small := stoull_lt read
        simp only [Field.read, read, Field.get, Option.map_some, UInt64.toNat_ofNat']
        rw [Nat.mod_eq_of_lt small]
        rfl
      | _ => exact absurd own (by decide)
    · cases f with
      | maxQueueSize => exact absurd rfl other
      | _ => rfl
  split at h
  · rename_i is
    subst is
    cases h
    apply Parsed.of_frame (by decide)
    · intro f
      cases f <;> decide
    · intro f
      cases f <;> rfl
  split at h
  · rename_i is
    subst is
    cases h
    apply Parsed.of_frame (by decide)
    · intro f
      cases f <;> decide
    · intro f
      cases f <;> rfl
  split at h
  · rename_i is
    subst is
    obtain ⟨n, read, eq⟩ := Option.map_eq_some_iff.1 h
    cases eq
    refine ⟨by decide, fun f own => ?_, fun f other => ?_⟩
    · cases f with
      | readTimeout | writeTimeout | keepaliveTimeout => exact read
      | _ => exact absurd own (by decide)
    · cases f with
      | readTimeout | writeTimeout | keepaliveTimeout => exact absurd rfl other
      | _ => rfl
  · rename_i help port workers queue static keepalive timeout
    cases h
    have unknown : arg ∉ valued := by simp [valued, port, workers, queue, static, timeout]
    apply Parsed.of_frame (iff_of_false Bool.false_ne_true unknown)
    · intro f own
      exact unknown (own ▸ option_valued f)
    · intro f
      rfl

/-- The last argument takes no value. -/
theorem parseArg_last {config config' : Config} {arg : Bytes} {consumed : Bool}
    (h : parseArg config arg none = some (config', consumed)) (f : Field) : f.get config' = f.get config := by
  simp only [parseArg] at h
  split at h
  · cases h
  split at h <;> cases h <;> cases f <;> rfl

/-! ## The whole line -/

theorem given_cons (option arg value : Bytes) (os : List (Bytes × Bytes)) :
    ((((arg, value) :: os).filter fun o => o.1 == option).getLast?).map Prod.snd =
      (((os.filter fun o => o.1 == option).getLast?).map Prod.snd).or
        (if arg = option then some value else none) := by
  by_cases own : arg = option
  · rw [List.filter_cons_of_pos (by simpa using own), List.getLast?_cons, if_pos own]
    cases (os.filter fun o => o.1 == option).getLast? <;> rfl
  · rw [List.filter_cons_of_neg (by simpa using own), if_neg own, Option.or_none]

theorem occurrences_valued {arg : Bytes} (known : arg ∈ valued) (value : Bytes) (rest : List Bytes) :
    occurrences (arg :: value :: rest) = (arg, value) :: occurrences rest :=
  if_pos known

theorem occurrences_other {arg : Bytes} (unknown : arg ∉ valued) (value : Bytes) (rest : List Bytes) :
    occurrences (arg :: value :: rest) = occurrences (value :: rest) :=
  if_neg unknown

theorem given_valued {arg : Bytes} (known : arg ∈ valued) (option value : Bytes) (rest : List Bytes) :
    given option (arg :: value :: rest) =
      (given option rest).or (if arg = option then some value else none) := by
  unfold given
  rw [occurrences_valued known, given_cons]

theorem given_other {arg : Bytes} (unknown : arg ∉ valued) (option value : Bytes) (rest : List Bytes) :
    given option (arg :: value :: rest) = given option (value :: rest) := by
  unfold given
  rw [occurrences_other unknown]

/-- A round of the loop, and the arguments that the rounds after it see. -/
theorem parseLoop_round {config config' : Config} {arg value : Bytes} {rest : List Bytes}
    (h : parseLoop config (arg :: value :: rest) = some config') :
    ∃ c consumed, Parsed config arg value c consumed ∧
      parseLoop c (if arg ∈ valued then rest else value :: rest) = some config' := by
  rw [parseLoop] at h
  split at h
  · rename_i c parsed
    have round := parseArg_parsed parsed
    refine ⟨c, true, round, ?_⟩
    rw [if_pos (round.consumed.1 rfl)]
    exact h
  · rename_i c parsed
    have round := parseArg_parsed parsed
    refine ⟨c, false, round, ?_⟩
    rw [if_neg fun known => Bool.false_ne_true (round.consumed.2 known)]
    exact h
  · cases h

/-- Each field is read from the last value of its option, or stays as it is. -/
theorem parseLoop_fields {args : List Bytes} {config config' : Config} (h : parseLoop config args = some config')
    (f : Field) :
    match given f.option args with
    | some value => f.read value = some (f.get config')
    | none => f.get config' = f.get config := by
  induction args using occurrences.induct generalizing config with
  | case1 =>
    cases h
    rfl
  | case2 arg =>
    obtain ⟨⟨c, consumed⟩, parsed, eq⟩ := Option.map_eq_some_iff.1 h
    cases eq
    exact parseArg_last parsed f
  | case3 arg value rest known ih =>
    obtain ⟨c, consumed, round, tail⟩ := parseLoop_round h
    rw [if_pos known] at tail
    have later := ih tail
    rw [given_valued known]
    cases last : given f.option rest with
    | some v =>
      rw [last] at later
      exact later
    | none =>
      rw [last] at later
      rw [Option.none_or]
      by_cases own : f.option = arg
      · rw [if_pos own.symm, later]
        exact round.own f own
      · rw [if_neg (Ne.symm own), later]
        exact round.frame f own
  | case4 arg value rest unknown ih =>
    obtain ⟨c, consumed, round, tail⟩ := parseLoop_round h
    rw [if_neg unknown] at tail
    have same := round.frame f fun own => unknown (own ▸ option_valued f)
    rw [given_other unknown, ← same]
    exact ih tail

/-- Every value was read. -/
theorem parseLoop_read {args : List Bytes} {config config' : Config} (h : parseLoop config args = some config')
    {f : Field} {value : Bytes} (mem : (f.option, value) ∈ occurrences args) : ∃ n, f.read value = some n := by
  induction args using occurrences.induct generalizing config with
  | case1 | case2 => cases mem
  | case3 arg v rest known ih =>
    obtain ⟨c, consumed, round, tail⟩ := parseLoop_round h
    rw [if_pos known] at tail
    rw [occurrences_valued known] at mem
    rcases List.mem_cons.1 mem with eq | mem
    · obtain ⟨own, rfl⟩ := Prod.mk.inj eq
      exact ⟨_, round.own f own⟩
    · exact ih tail mem
  | case4 arg v rest unknown ih =>
    obtain ⟨c, consumed, round, tail⟩ := parseLoop_round h
    rw [if_neg unknown] at tail
    rw [occurrences_other unknown] at mem
    exact ih tail mem

/-! ## The numbers -/

theorem stoi_some {s : Bytes} {n : Int} (h : stoi s = some n) : denoted s = some n ∧ -2 ^ 31 ≤ n ∧ n < 2 ^ 31 := by
  unfold stoi at h
  split at h
  · rename_i m eq
    split at h
    · rename_i range
      cases h
      exact ⟨eq, range⟩
    · cases h
  · cases h

/-- `stoull` takes a negative number modulo 2^64. -/
theorem stoull_some {s : Bytes} {n : Nat} (h : stoull s = some n) :
    ∃ m, denoted s = some m ∧ m < 2 ^ 64 ∧ (0 ≤ m → m = n) := by
  rw [stoull_eq] at h
  split at h
  · cases h
  · rename_i fine
    rw [not_or] at fine
    have value : denoted s =
        some (if (numeral s).1 then -(decimal (numeral s).2 : Int) else decimal (numeral s).2) := if_neg fine.1
    cases h
    refine ⟨_, value, ?_, ?_⟩
    · split <;> omega
    · split <;> omega

/-- The value that a field was read from denotes a number, and the field is this number where it fits. -/
theorem read_denoted {f : Field} {value : Bytes} {n : Int} (h : f.read value = some n) :
    ∃ m, denoted value = some m ∧ (f.Fits m → n = m) ∧
      ((f = .port → 0 ≤ m ∧ m < 2 ^ 16) → (f = .maxQueueSize → 0 ≤ m) → f.Fits m) := by
  cases f with
  | port =>
    obtain ⟨m, read, rfl⟩ := Option.map_eq_some_iff.1 h
    refine ⟨m, (stoi_some read).1, fun fits => Int.emod_eq_of_lt fits.1 fits.2, fun port _ => port rfl⟩
  | maxQueueSize =>
    obtain ⟨k, read, rfl⟩ := Option.map_eq_some_iff.1 h
    obtain ⟨m, eq, small, same⟩ := stoull_some read
    exact ⟨m, eq, fun fits => (same fits.1).symm, fun _ queue => ⟨queue rfl, small⟩⟩
  | numWorkers | readTimeout | writeTimeout | keepaliveTimeout =>
    obtain ⟨eq, range⟩ := stoi_some h
    exact ⟨n, eq, fun _ => rfl, fun _ _ => range⟩

/-- **The configuration is what was written**, exactly where the ports and the queue sizes that were written
are in range. -/
theorem asWritten_iff {argv : List Bytes} {config : Config} (h : parseArgs argv = some config) :
    AsWritten argv.tail config ↔ InRange argv.tail := by
  constructor
  · intro written
    exact ⟨fun value mem n eq => written.fits .port value mem n eq,
      fun value mem n eq => (written.fits .maxQueueSize value mem n eq).1⟩
  · rintro ⟨ports, queues⟩
    have fits (f : Field) (value : Bytes) (mem : (f.option, value) ∈ occurrences argv.tail) (n : Int)
        (eq : denoted value = some n) : f.Fits n := by
      obtain ⟨k, read⟩ := parseLoop_read h mem
      obtain ⟨m, eq', -, range⟩ := read_denoted read
      obtain rfl : n = m := Option.some.inj (eq.symm.trans eq')
      apply range
      · rintro rfl
        exact ports value mem n eq
      · rintro rfl
        exact queues value mem n eq
    refine ⟨fun f => ?_, fits⟩
    have field := parseLoop_fields h f
    cases last : given f.option argv.tail with
    | none =>
      rw [last] at field
      exact field
    | some value =>
      rw [last] at field
      obtain ⟨m, eq, same, -⟩ := read_denoted field
      obtain ⟨⟨o, v⟩, found, rfl⟩ := Option.map_eq_some_iff.1 last
      have mem := List.mem_of_getLast? found
      rw [List.mem_filter, beq_iff_eq] at mem
      have mem' : (f.option, v) ∈ occurrences argv.tail := by
        rw [← mem.2]
        exact mem.1
      change denoted v = some (f.get config)
      rw [same (fits f v mem' m eq), eq]

/-- A port in range is set as it is written; an option at the end, without its value, is none. -/
theorem asWritten_ports :
    ∃ config, parseArgs [ascii "httpserver", ascii "--port", ascii "9090", ascii "--queue-size"] = some config ∧
      config.port = 9090 ∧
      InRange [ascii "--port", ascii "9090", ascii "--queue-size"] ∧
      AsWritten [ascii "--port", ascii "9090", ascii "--queue-size"] config := by
  have port : (parseArgs [ascii "httpserver", ascii "--port", ascii "9090", ascii "--queue-size"]).map (·.port) =
      some 9090 := by
    decide +kernel
  obtain ⟨config, parsed, eq⟩ := Option.map_eq_some_iff.1 port
  have one : occurrences [ascii "--port", ascii "9090", ascii "--queue-size"] = [(ascii "--port", ascii "9090")] := by
    decide +kernel
  have range : InRange [ascii "--port", ascii "9090", ascii "--queue-size"] := by
    refine ⟨fun value mem n denotes => ?_, fun value mem => ?_⟩
    · rw [one, List.mem_singleton] at mem
      cases mem
      have number : denoted (ascii "9090") = some 9090 := by decide +kernel
      cases number.symm.trans denotes
      decide
    · rw [one, List.mem_singleton] at mem
      have named : ascii "--queue-size" = ascii "--port" := congrArg Prod.fst mem
      exact absurd named (by decide)
  exact ⟨config, parsed, eq, range, (asWritten_iff parsed).2 range⟩

/-- A port of 17 bits, and a negative queue size. -/
theorem other_values_set :
    (∃ config, parseArgs [ascii "httpserver", ascii "--port", ascii "65616"] = some config ∧
      config.port = 80 ∧ ¬ AsWritten [ascii "--port", ascii "65616"] config) ∧
    ∃ config, parseArgs [ascii "httpserver", ascii "--queue-size", ascii "-1"] = some config ∧
      config.maxQueueSize.toNat = 2 ^ 64 - 1 ∧ ¬ AsWritten [ascii "--queue-size", ascii "-1"] config := by
  constructor
  · have port : (parseArgs [ascii "httpserver", ascii "--port", ascii "65616"]).map (·.port) = some 80 := by
      decide +kernel
    obtain ⟨config, parsed, eq⟩ := Option.map_eq_some_iff.1 port
    refine ⟨config, parsed, eq, fun written => ?_⟩
    have fits := written.fits .port (ascii "65616") (by decide) 65616 (by decide +kernel)
    exact absurd fits.2 (by decide)
  · have size : (parseArgs [ascii "httpserver", ascii "--queue-size", ascii "-1"]).map (·.maxQueueSize) =
        some (2 ^ 64 - 1) := by
      decide +kernel
    obtain ⟨config, parsed, eq⟩ := Option.map_eq_some_iff.1 size
    refine ⟨config, parsed, by rw [eq]; decide +kernel, fun written => ?_⟩
    have fits := written.fits .maxQueueSize (ascii "-1") (by decide) (-1) (by decide +kernel)
    exact absurd fits.1 (by decide)

end Arguments

end HttpServer
