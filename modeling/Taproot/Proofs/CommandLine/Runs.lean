import Taproot.CommandLine.Run
import Taproot.Proofs.CommandLine.TypedNumbers
import Taproot.Proofs.Wallet.Files

/-! # Wallet files over runs

A run finds a wallet file and leaves it to the next one. From the run that makes it on, the file
holds the wallet that was in memory when it was written; runs that fail, and runs that only show
something, leave it as it is.
-/
namespace Taproot.CommandLine

/-! ## Outcomes -/

namespace Outcome

/-- The run is refused or breaks off, and the wallet file is not written. -/
structure Fails (o : Outcome) : Prop where
  exitCode : o.exitCode ≠ 0
  written (text : String) : o.written ≠ .wallet text

/-- The run answers, and nothing is written. -/
structure Shows (o : Outcome) : Prop where
  exitCode : o.exitCode = 0
  written : o.written = .nothing

/-- The run answers, and the wallet file has this text in the end. -/
structure Writes (o : Outcome) (text : String) : Prop where
  exitCode : o.exitCode = 0
  written : o.written = .wallet text

theorem fails_ofUsage (e : UsageError) : (ofUsage e).Fails :=
  ⟨Nat.succ_ne_zero 1, fun _ h => nomatch h⟩

theorem fails_ofCrash (c : Crash) : (ofCrash c).Fails := ⟨Nat.one_ne_zero, fun _ h => nomatch h⟩

theorem fails_ofFailure (message : String) : (ofFailure message).Fails :=
  ⟨Nat.one_ne_zero, fun _ h => nomatch h⟩

theorem fails_breakOff (o : Outcome) (c : Crash) {written : Written}
    (h : ∀ text, written ≠ .wallet text) : (o.breakOff c written).Fails := ⟨Nat.one_ne_zero, h⟩

/-- Notices change nothing else. -/
theorem Fails.atLevel {o : Outcome} (h : o.Fails) (level : Level) : (o.atLevel level).Fails :=
  ⟨h.exitCode, h.written⟩

theorem Fails.withNotices {o : Outcome} (h : o.Fails) (before : List Notice) :
    (o.withNotices before).Fails := ⟨h.exitCode, h.written⟩

/-- Where a computation gives no value, the run fails. -/
def FailsFrom {α : Type} (x : Except Outcome α) : Prop := ∀ o, x = .error o → o.Fails

namespace FailsFrom

variable {α β ε : Type}

theorem ok (a : α) : FailsFrom (.ok a) := nofun

theorem error {o : Outcome} (h : o.Fails) : FailsFrom (.error o : Except Outcome α) := by
  rintro _ ⟨⟩
  exact h

theorem bind {x : Except Outcome α} {f : α → Except Outcome β} (hx : FailsFrom x)
    (hf : ∀ a, FailsFrom (f a)) : FailsFrom (x >>= f) := by
  cases x with
  | error o => exact error (hx o rfl)
  | ok a => exact hf a

theorem mapError {f : ε → Outcome} (h : ∀ e, (f e).Fails) (x : Except ε α) :
    FailsFrom (x.mapError f) := by
  cases x with
  | error e => exact error (h e)
  | ok a => exact ok a

end FailsFrom

end Outcome

open Outcome

theorem failsFrom_plan (environment : EnvFile.Environment) (file : Option String)
    (args : List String) (numbers : NumberReader) :
    FailsFrom (plan environment file args numbers) := by
  refine (FailsFrom.mapError fails_ofUsage _).bind fun words => ?_
  refine (FailsFrom.mapError fails_ofUsage _).bind fun (name, rest) => ?_
  cases Settings.read environment file with
  | none => exact .error (fails_ofCrash _)
  | some settings =>
    dsimp only
    cases level? settings words with
    | none => exact .error (fails_ofCrash _)
    | some level =>
      dsimp only
      cases words.value? networkSwitch.long with
      | none => exact .ok _
      | some asked =>
        dsimp only
        cases Network.ofName? asked with
        | some network => exact .ok _
        | none => exact .error ((fails_ofFailure _).atLevel level)

/-- A plan keeps the reader that it is made with. -/
theorem numbers_of_plan {environment : EnvFile.Environment} {file : Option String}
    {args : List String} {numbers : NumberReader} {p : Plan}
    (h : plan environment file args numbers = .ok p) : p.numbers = numbers := by
  obtain ⟨words, -, h⟩ := bind_eq_ok.mp h
  obtain ⟨⟨name, rest⟩, -, h⟩ := bind_eq_ok.mp h
  dsimp only at h
  split at h
  · cases h
  · split at h
    · cases h
    · split at h
      · cases h
        rfl
      · split at h
        · cases h
          rfl
        · cases h

namespace Plan

variable {p : Plan} {found : Found} {entropy : List Bytes}

def command (p : Plan) : Except UsageError Command := Command.read p.numbers p.name p.args

/-- The wallet in memory when the command has been performed. -/
def held? (p : Plan) (found : Found) (entropy : List Bytes) : Option Wallet :=
  match p.command with
  | .error _ => none
  | .ok (.init _) => some {}
  | .ok c => (p.load found).toOption.map fun w =>
    ((c.perform p.network).runOn { wallet := w, entropy }).2.wallet

theorem held?_init {force : Bool} (hc : p.command = .ok (.init force)) :
    p.held? found entropy = some {} := by
  rw [held?, hc]

theorem held?_perform {c : Command} {w : Wallet} (hc : p.command = .ok c)
    (hinit : ∀ force, c ≠ .init force) (hl : p.load found = .ok w) : p.held? found entropy =
      some ((c.perform p.network).runOn { wallet := w, entropy }).2.wallet := by
  unfold held?
  split
  · rename_i hc'
    rw [hc] at hc'
    cases hc'
  · rename_i force hc'
    rw [hc] at hc'
    exact absurd (Except.ok.inj hc') (hinit force)
  · rename_i d _ hd
    rw [hc] at hd
    obtain rfl := Except.ok.inj hd
    rw [hl]
    rfl

/-- How a run ends. What is written is the wallet in memory. -/
inductive Ends (p : Plan) (found : Found) (entropy : List Bytes) (o : Outcome) : Prop
  | fails (h : o.Fails)
  | shows {c : Command} (hc : p.command = .ok c) (hs : c.saves = false) (h : o.Shows)
  | saves {c : Command} {w : Wallet} (hc : p.command = .ok c) (hs : c.saves = true)
      (hw : p.held? found entropy = some w) (h : o.Writes w.fileText)

theorem save_cases (p : Plan) (around : Surroundings) (text : String) (done : Outcome) :
    (∃ c, (p.save around text done).crash = some c ∧ (p.save around text done).Fails) ∨
    p.save around text done =
      { done with written := .wallet text, notices := done.notices ++ [.saved p.path] } := by
  have hbreak : ∀ c {written}, (∀ text, written ≠ .wallet text) →
      ∃ c', (done.breakOff c written).crash = some c' ∧ (done.breakOff c written).Fails :=
    fun c _ hw => ⟨c, rfl, fails_breakOff done c hw⟩
  unfold save
  split
  · exact .inl (hbreak _ fun _ h => nomatch h)
  · exact .inl (hbreak _ fun _ h => nomatch h)
  · split
    · exact .inl (hbreak _ fun _ h => nomatch h)
    · split
      · exact .inl (hbreak _ fun _ h => nomatch h)
      · exact .inr rfl

/-- A new wallet is written, or the run fails. -/
theorem create_cases (p : Plan) (around : Surroundings) (force : Bool) :
    (p.create around force).Fails ∨ (p.create around force).Writes (Wallet.fileText {}) := by
  unfold create
  dsimp only
  split
  · exact .inl (fails_ofCrash _)
  · exact .inl (fails_ofFailure _)
  · exact .inl (fails_ofFailure _)
  · let answered : Outcome := { exitCode := 0 }
    rcases p.save_cases around (Wallet.fileText {}) answered with ⟨c, hc, h⟩ | h
    · rw [hc]
      exact .inl h
    · rw [h]
      exact .inr ⟨rfl, rfl⟩

theorem failsFrom_load (p : Plan) (found : Found) : FailsFrom (p.load found) := by
  cases found with
  | directory => exact .error (fails_ofCrash _)
  | nameTooLong => exact .error (fails_ofCrash _)
  | nothing => exact .error (fails_ofFailure _)
  | noDirectory => exact .error (fails_ofFailure _)
  | notDirectory => exact .error (fails_ofFailure _)
  | unnameable => exact .error (fails_ofFailure _)
  | file content => exact .mapError (fun _ => fails_ofFailure _) _

/-- A command that is performed shows something or writes the wallet that it leads to. -/
theorem perform_cases (p : Plan) (around : Surroundings) (w : Wallet) (entropy : List Bytes)
    (c : Command) :
    (p.perform around w entropy c).Fails ∨
    (c.saves = false ∧ (p.perform around w entropy c).Shows) ∨
    (c.saves = true ∧ (p.perform around w entropy c).Writes
      ((c.perform p.network).runOn { wallet := w, entropy }).2.wallet.fileText) := by
  unfold perform
  rcases (c.perform p.network).runOn { wallet := w, entropy } with ⟨e | lines, after⟩
  · refine .inl ?_
    dsimp only
    cases crash? e with
    | some crash => exact (fails_ofCrash crash).withNotices _
    | none => exact (fails_ofFailure _).withNotices _
  · dsimp only
    cases hs : c.saves with
    | false => exact .inr (.inl ⟨rfl, rfl, rfl⟩)
    | true =>
      rw [if_pos rfl]
      let printed : Outcome := { exitCode := 0, output := "".intercalate (lines.map (· ++ "\n")) }
      rcases p.save_cases around after.wallet.fileText printed with ⟨-, -, h⟩ | h
      · exact .inl (h.withNotices _)
      · rw [h]
        exact .inr (.inr ⟨rfl, rfl, rfl⟩)

theorem execute_ends (p : Plan) (around : Surroundings) (entropy : List Bytes) :
    p.Ends around.wallet entropy (p.execute around entropy) := by
  unfold execute
  split
  · exact .fails (fails_ofUsage _)
  · rename_i force hc
    rcases p.create_cases around force with h | h
    · exact .fails (h.atLevel _)
    · exact .saves hc rfl (held?_init hc) ⟨h.exitCode, h.written⟩
  · rename_i c hinit hc
    cases hl : p.load around.wallet with
    | error o => exact .fails ((p.failsFrom_load _ o hl).atLevel _)
    | ok w =>
      rcases p.perform_cases around w entropy c with h | ⟨hs, h⟩ | ⟨hs, h⟩
      · exact .fails (h.atLevel _)
      · exact .shows hc hs ⟨h.exitCode, h.written⟩
      · have hheld : p.held? around.wallet entropy = some _ := held?_perform hc hinit hl
        exact .saves hc hs hheld ⟨h.exitCode, h.written⟩

end Plan

/-- A command leads from a wallet that can be read back to one that can be read back. -/
theorem Plan.storable_held? {p : Plan} (hnumbers : p.numbers.Short) {entropy : List Bytes}
    {w w' : Wallet} (hw : w.Storable) (h : p.held? (.file w.fileText.toUTF8) entropy = some w') :
    w'.Storable := by
  unfold Plan.held? at h
  split at h
  · cases h
  · cases h
    exact Wallet.Storable.empty
  · rename_i c _ hc
    have hl : p.load (.file w.fileText.toUTF8) = .ok w := by
      rw [Plan.load, hw.load p.path]
      rfl
    rw [hl] at h
    obtain rfl := Option.some.inj h
    let s : Session := { wallet := w, entropy }
    have hchanges : Operation.Takes (Wallet.Changes .storable) (c.perform p.network) s :=
      Command.takes_perform p.network (Command.short_of_read hnumbers hc) hw.outputs.index
    exact hchanges.keeps Wallet.Storable.change hw

/-! ## Runs -/

/-- All that a run reads besides the wallet file, and how it reads numbers. The command line has
them as they are typed; any reader will do that takes no numbers which cannot be written again. -/
structure Invocation where
  environment : EnvFile.Environment := []
  settings : Option String := none
  args : List String
  numbers : Subtype NumberReader.Short := ⟨Text.readTyped?, Text.short_of_readTyped?⟩
  scratch : Found := .nothing
  entropy : List Bytes := []

/-- What is found at the path of the wallet file, and the wallet that was in memory when the file
was last written. -/
structure Place where
  found : Found
  memory : Option Wallet := none

namespace Invocation

def plan (i : Invocation) : Except Outcome Plan :=
  CommandLine.plan i.environment i.settings i.args i.numbers.val

def outcome (i : Invocation) (found : Found) : Outcome :=
  match i.plan with
  | .error o => o
  | .ok p => p.execute ⟨found, i.scratch⟩ i.entropy

/-- The command, where the line is read. -/
def command? (i : Invocation) : Option Command := i.plan.toOption.bind fun p => p.command.toOption

/-- The wallet in memory when the command has been performed. -/
def held? (i : Invocation) (found : Found) : Option Wallet :=
  i.plan.toOption.bind fun p => p.held? found i.entropy

/-- The place as the run leaves it. -/
def leave (i : Invocation) (place : Place) : Place :=
  match (i.outcome place.found).written with
  | .wallet text => ⟨.file text.toUTF8, i.held? place.found⟩
  | _ => place

end Invocation

/-- One run after the other. -/
def runs (is : List Invocation) (place : Place) : Place := is.foldl (fun p i => i.leave p) place

namespace Invocation

variable {i : Invocation}

/-- How a run ends: it fails, shows something, or writes the wallet in memory. -/
theorem outcome_cases (i : Invocation) (found : Found) :
    (i.outcome found).Fails ∨
    (∃ c, i.command? = some c ∧ c.saves = false ∧ (i.outcome found).Shows) ∨
    ∃ c w, i.command? = some c ∧ c.saves = true ∧ i.held? found = some w ∧
      (i.outcome found).Writes w.fileText := by
  unfold command? held? outcome
  cases hp : i.plan with
  | error o => exact .inl (failsFrom_plan _ _ _ _ o hp)
  | ok p =>
    cases p.execute_ends ⟨found, i.scratch⟩ i.entropy with
    | fails h => exact .inl h
    | shows hc hs h =>
      refine .inr (.inl ⟨_, ?_, hs, h⟩)
      exact congrArg Except.toOption hc
    | saves hc hs hw h =>
      refine .inr (.inr ⟨_, _, ?_, hs, hw, h⟩)
      exact congrArg Except.toOption hc

/-- The place stays as it is, or the wallet in memory is written. -/
theorem leave_cases (i : Invocation) (place : Place) :
    (((i.outcome place.found).exitCode ≠ 0 ∨ ∃ c, i.command? = some c ∧ c.saves = false) ∧
      i.leave place = place) ∨
    ∃ c w, i.command? = some c ∧ c.saves = true ∧ (i.outcome place.found).exitCode = 0 ∧
      i.held? place.found = some w ∧ i.leave place = ⟨.file w.fileText.toUTF8, some w⟩ := by
  unfold leave
  rcases i.outcome_cases place.found with h | ⟨c, hc, hs, h⟩ | ⟨c, w, hc, hs, hw, h⟩
  · refine .inl ⟨.inl h.exitCode, ?_⟩
    split
    · rename_i text ht
      exact absurd ht (h.written text)
    · rfl
  · refine .inl ⟨.inr ⟨c, hc, hs⟩, ?_⟩
    rw [h.written]
  · refine .inr ⟨c, w, hc, hs, h.exitCode, hw, ?_⟩
    rw [h.written, hw]

/-- A run that fails leaves everything as it is. -/
theorem leave_of_exitCode (i : Invocation) (place : Place)
    (h : (i.outcome place.found).exitCode ≠ 0) : i.leave place = place := by
  rcases i.leave_cases place with ⟨-, hl⟩ | ⟨c, w, -, -, he, -⟩
  · exact hl
  · exact absurd he h

/-- So does a command that only shows something. -/
theorem leave_of_not_saves (i : Invocation) (place : Place) {c : Command}
    (hc : i.command? = some c) (hs : c.saves = false) : i.leave place = place := by
  rcases i.leave_cases place with ⟨-, hl⟩ | ⟨d, w, hd, hs', -⟩
  · exact hl
  · obtain rfl := Option.some.inj (hd.symm.trans hc)
    rw [hs] at hs'
    cases hs'

theorem leave_of_saves (i : Invocation) (place : Place) {c : Command}
    (hc : i.command? = some c) (hs : c.saves = true)
    (he : (i.outcome place.found).exitCode = 0) :
    ∃ w, i.held? place.found = some w ∧ i.leave place = ⟨.file w.fileText.toUTF8, some w⟩ := by
  rcases i.leave_cases place with ⟨hne | ⟨d, hd, hs'⟩, -⟩ | ⟨d, w, -, -, -, hw, hl⟩
  · exact absurd he hne
  · obtain rfl := Option.some.inj (hd.symm.trans hc)
    rw [hs] at hs'
    cases hs'
  · exact ⟨w, hw, hl⟩

theorem held?_init {force : Bool} (hc : i.command? = some (.init force)) (found : Found) :
    i.held? found = some {} := by
  obtain ⟨p, hp, hc⟩ := Option.bind_eq_some_iff.mp hc
  have hinit : p.command = .ok (.init force) := toOption_eq_some.mp hc
  rw [held?, hp]
  exact Plan.held?_init hinit

theorem storable_held? {w w' : Wallet} (hw : w.Storable)
    (h : i.held? (.file w.fileText.toUTF8) = some w') : w'.Storable := by
  obtain ⟨p, hp, hheld⟩ := Option.bind_eq_some_iff.mp h
  have hnumbers : p.numbers.Short := by
    rw [numbers_of_plan (toOption_eq_some.mp hp)]
    exact i.numbers.property
  exact Plan.storable_held? hnumbers hw hheld

end Invocation

/-- The file is the text of a wallet that was in memory when it was written, and that can be read
back. -/
def Place.Kept (place : Place) : Prop :=
  ∃ w : Wallet, w.Storable ∧ place = ⟨.file w.fileText.toUTF8, some w⟩

theorem Place.Kept.leave {place : Place} (h : place.Kept) (i : Invocation) :
    (i.leave place).Kept := by
  rcases i.leave_cases place with ⟨-, hl⟩ | ⟨c, w', -, -, -, hheld, hl⟩
  · rwa [hl]
  · obtain ⟨w, hw, rfl⟩ := h
    exact ⟨w', Invocation.storable_held? hw hheld, hl⟩

theorem Place.Kept.runs {place : Place} (h : place.Kept) (is : List Invocation) :
    (runs is place).Kept := by
  induction is generalizing place with
  | nil => exact h
  | cons i is ih => exact ih (h.leave i)

/-- A run that makes a wallet leaves the empty one. -/
theorem Place.kept_of_init {i : Invocation} {force : Bool} {found : Found}
    (hc : i.command? = some (.init force)) (he : (i.outcome found).exitCode = 0) :
    (i.leave { found }).Kept := by
  obtain ⟨w, hheld, hl⟩ := i.leave_of_saves { found } hc rfl he
  have hempty := Invocation.held?_init hc found
  rw [hheld] at hempty
  obtain rfl := Option.some.inj hempty
  exact ⟨{}, .empty, hl⟩

/-- From the run that makes a wallet on, the wallet that was in memory when its file was written is
read back from the file, and written again it gives the same bytes. A run that fails and a command
that only shows something leave the file as it is; where a command that changes wallets answers, the
file is written from the wallet that it leads to. -/
theorem runs_lossless {first : Invocation} {force : Bool} {found : Found}
    (hc : first.command? = some (.init force)) (he : (first.outcome found).exitCode = 0)
    (later : List Invocation) :
    ∃ (content : ByteArray) (w : Wallet),
      runs (first :: later) { found } = ⟨.file content, some w⟩ ∧
      (∀ path, Wallet.load path (some content) = .ok w) ∧ w.fileText.toUTF8 = content ∧
      ∀ next : Invocation,
        ((next.outcome (.file content)).exitCode ≠ 0 →
          (next.leave ⟨.file content, some w⟩).found = .file content) ∧
        ∀ c, next.command? = some c →
          (c.saves = false → (next.leave ⟨.file content, some w⟩).found = .file content) ∧
          (c.saves = true → (next.outcome (.file content)).exitCode = 0 →
            ∃ w' : Wallet, next.held? (.file content) = some w' ∧
              next.leave ⟨.file content, some w⟩ = ⟨.file w'.fileText.toUTF8, some w'⟩) := by
  obtain ⟨w, hw, hruns⟩ := (Place.kept_of_init hc he).runs later
  generalize hcontent : w.fileText.toUTF8 = content at hruns
  have hload : ∀ path, Wallet.load path (some content) = .ok w := hcontent ▸ hw.load
  refine ⟨content, w, hruns, hload, hcontent, fun next => ?_⟩
  let place : Place := ⟨.file content, some w⟩
  refine ⟨fun he => ?_, fun c hc => ⟨fun hs => ?_, fun hs he => ?_⟩⟩
  · exact congrArg Place.found (next.leave_of_exitCode place he)
  · exact congrArg Place.found (next.leave_of_not_saves place hc hs)
  · exact next.leave_of_saves place hc hs he

namespace FeeIsSet

def makes : Invocation := { args := ["init"] }

def charges : Invocation := { args := ["fee", "500"] }

theorem fee_kept : makes.command? = some (.init false) ∧ charges.command? = some (.setFee 500) ∧
    (makes.outcome .nothing).exitCode = 0 ∧
    ∃ content w, runs [makes, charges] { found := .nothing } = ⟨.file content, some w⟩ ∧
      (∀ path, Wallet.load path (some content) = .ok w) ∧ w.fileText.toUTF8 = content := by
  have hmakes : makes.command? = some (.init false) := by decide +kernel
  have hcharges : charges.command? = some (.setFee 500) := by decide +kernel
  have he : (makes.outcome .nothing).exitCode = 0 := by decide +kernel
  obtain ⟨content, w, hruns, hload, htext, -⟩ := runs_lossless hmakes he [charges]
  exact ⟨hmakes, hcharges, he, content, w, hruns, hload, htext⟩

end FeeIsSet

end Taproot.CommandLine
