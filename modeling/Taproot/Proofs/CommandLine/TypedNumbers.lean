import Taproot.CommandLine.Run
import Taproot.Proofs.Text.Numerals
import Taproot.Proofs.Wallet.Changes

/-! # Numbers that are typed

A number that is given on the command line and is not negative has no more digits than are read from
a file, and so have the numbers that a command brings into the wallet.
-/
namespace Taproot.CommandLine

/-- The numbers that words stand for are not too long, save for negative ones. -/
def NumberReader.Short (numbers : NumberReader) : Prop :=
  ∀ {w : String} {n : Nat}, numbers w = some (n : Int) → Text.Short n

theorem short_readAsInFiles : readAsInFiles.Short :=
  fun h => Text.short_of_readInteger (toOption_eq_some.mp h)

/-! ## Readers of words -/

namespace WordReader

variable {numbers : NumberReader} {α β : Type} {p : α → Prop} {q : β → Prop} {r : WordReader α}

/-- Whatever the words are, what is read from them is of a kind. -/
def Gives (numbers : NumberReader) (r : WordReader α) (p : α → Prop) : Prop :=
  ∀ ⦃words a rest⦄, (r.run numbers).run words = .ok (a, rest) → p a

theorem gives_any (r : WordReader α) : r.Gives numbers fun _ => True := fun _ _ _ _ => trivial

theorem gives_pure {a : α} (h : p a) : (pure a : WordReader α).Gives numbers p := by
  intro words b rest hb
  cases hb
  exact h

theorem gives_throw (e : UsageError) : (throw e : WordReader α).Gives numbers p := by
  intro words a rest h
  cases h

theorem Gives.bind {f : α → WordReader β} (h : r.Gives numbers p)
    (hf : ∀ a, p a → (f a).Gives numbers q) : (r >>= f).Gives numbers q := by
  intro words b rest hb
  rw [ReaderT.run_bind, StateT.run_bind] at hb
  obtain ⟨⟨a, left⟩, ha, hb⟩ := bind_eq_ok.mp hb
  exact hf a (h ha) hb

theorem Gives.map {f : α → β} (h : r.Gives numbers p) (hf : ∀ a, p a → q (f a)) :
    (f <$> r).Gives numbers q := by
  rw [← bind_pure_comp]
  exact h.bind fun a ha => gives_pure (hf a ha)

/-- Nothing is asked of the rest that goes into what is read. -/
theorem gives_bind {f : α → WordReader β} (r : WordReader α) (hf : ∀ a, (f a).Gives numbers q) :
    (r >>= f).Gives numbers q := (gives_any r).bind fun a _ => hf a

theorem gives_read : (read : WordReader NumberReader).Gives numbers (· = numbers) := by
  intro words a rest h
  cases h
  rfl

theorem gives_readNumber (w : String) :
    (readNumber w).Gives numbers fun n => numbers w = some n := by
  refine gives_read.bind fun read hread => ?_
  subst hread
  split
  · rename_i n hn
    exact gives_pure hn
  · exact gives_throw _

theorem gives_readAtLeast (hnumbers : numbers.Short) {bound : Int} (hbound : 0 ≤ bound)
    (w : String) : (readAtLeast bound w).Gives numbers Text.Short := by
  refine (gives_readNumber w).bind fun n hn => ?_
  split
  · rename_i hle
    obtain ⟨m, rfl⟩ := Int.eq_ofNat_of_zero_le (hbound.trans hle)
    exact gives_pure (hnumbers hn)
  · exact gives_throw _

theorem gives_natural (hnumbers : numbers.Short) (name : String) :
    (natural name).Gives numbers Text.Short :=
  gives_bind _ fun w => gives_readAtLeast hnumbers Int.le_rfl w

theorem gives_number? {read : String → WordReader Int}
    (h : ∀ w, (read w).Gives numbers Text.Short) :
    (number? read).Gives numbers fun m => ∀ n ∈ m, Text.Short n := by
  refine gives_bind word? fun w => ?_
  cases w with
  | none => exact gives_pure nofun
  | some w => exact (h w).map fun n hn m hm => Option.some.inj hm ▸ hn

end WordReader

open WordReader

/-! ## Commands -/

/-- The numbers that are given to go into the wallet are not too long. -/
def Command.Short (c : Command) : Prop := ∀ n ∈ c.numbers, Text.Short n

/-- The command takes no numbers into the wallet. -/
theorem Command.short_of_numbers {c : Command} (h : c.numbers = []) : c.Short := by
  intro n hn
  rw [h] at hn
  cases hn

/-- Commands that are typed in the form have no numbers that are too long. -/
def Form.Short (numbers : NumberReader) (f : Form) : Prop :=
  ∀ w, (f.command w).Gives numbers Command.Short

/-- Whatever is read, the command that it makes takes no numbers into the wallet. -/
theorem WordReader.gives_short {numbers : NumberReader} {α : Type} {f : α → Command}
    (r : WordReader α) (hf : ∀ a, (f a).numbers = []) : (f <$> r).Gives numbers Command.Short :=
  (gives_any r).map fun a _ => Command.short_of_numbers (hf a)

namespace Form

variable {numbers : NumberReader} {name : String} {f : Form}

theorem short_keyForm (h : keyForm name = some f) : f.Short numbers := by
  unfold keyForm at h
  split at h <;> cases h <;> intro w
  · exact gives_short count fun _ => rfl
  · exact gives_bind _ fun _ => gives_pure (Command.short_of_numbers rfl)
  · exact gives_bind _ fun _ => gives_pure (Command.short_of_numbers rfl)
  · exact gives_bind _ fun _ => gives_pure (Command.short_of_numbers rfl)
  · exact gives_short _ fun _ => rfl

theorem short_imageForm (h : imageForm name = some f) : f.Short numbers := by
  unfold imageForm at h
  split at h <;> cases h <;> intro w
  · exact gives_short count fun _ => rfl
  · exact gives_bind _ fun _ => gives_pure (Command.short_of_numbers rfl)
  · exact gives_bind _ fun _ => gives_pure (Command.short_of_numbers rfl)
  · exact gives_bind _ fun _ => gives_pure (Command.short_of_numbers rfl)
  · exact gives_short _ fun _ => rfl

theorem short_addressForm (hnumbers : numbers.Short) (h : addressForm name = some f) :
    f.Short numbers := by
  unfold addressForm at h
  split at h <;> cases h <;> intro w
  · exact gives_short _ fun _ => rfl
  · refine gives_bind _ fun txid => (gives_natural hnumbers _).bind fun vout hvout => ?_
    refine (gives_natural hnumbers _).bind fun value hvalue => gives_pure ?_
    simp [Command.Short, Command.numbers, hvout, hvalue]

theorem short_utxoForm (h : utxoForm name = some f) : f.Short numbers := by
  unfold utxoForm at h
  split at h <;> cases h
  intro w
  exact gives_pure (Command.short_of_numbers rfl)

theorem short_inputForm (hnumbers : numbers.Short) (h : inputForm name = some f) :
    f.Short numbers := by
  unfold inputForm at h
  split at h <;> cases h <;> intro w
  · refine (gives_natural hnumbers _).bind fun index hindex => ?_
    refine gives_bind _ fun utxo => gives_pure ?_
    simp [Command.Short, Command.numbers, hindex]
  · exact gives_short _ fun _ => rfl
  · refine gives_bind _ fun index => gives_bind _ fun height => gives_pure ?_
    split <;> exact Command.short_of_numbers rfl

theorem short_outputForm (hnumbers : numbers.Short) (h : outputForm name = some f) :
    f.Short numbers := by
  unfold outputForm at h
  split at h <;> cases h <;> intro w
  · refine (gives_natural hnumbers _).bind fun index hindex => gives_bind _ fun text => ?_
    have hread : ∀ w, (readAtLeast 0 w).Gives numbers Text.Short :=
      gives_readAtLeast hnumbers Int.le_rfl
    refine (gives_number? hread).bind fun value hvalue => gives_pure ?_
    simpa [Command.Short, Command.numbers, hindex] using hvalue
  · exact gives_short _ fun _ => rfl

theorem short_topForm (hnumbers : numbers.Short) (h : topForm name = some f) : f.Short numbers := by
  unfold topForm at h
  split at h <;> cases h <;> intro w
  · exact gives_pure (Command.short_of_numbers rfl)
  · exact gives_pure (Command.short_of_numbers rfl)
  · exact gives_short _ fun _ => rfl
  · refine gives_bind _ fun height => gives_pure ?_
    split <;> exact Command.short_of_numbers rfl
  · refine (gives_natural hnumbers _).map fun fee hfee => ?_
    simpa [Command.Short, Command.numbers] using hfee
  · exact gives_pure (Command.short_of_numbers rfl)
  · exact gives_bind _ fun _ => gives_pure (Command.short_of_numbers rfl)

theorem short_groupForm (hnumbers : numbers.Short) {forms : String → Option Form}
    (hg : groupForm name = some forms) {sub : String} (h : forms sub = some f) :
    f.Short numbers := by
  unfold groupForm at hg
  split at hg <;> cases hg
  · exact short_keyForm h
  · exact short_imageForm h
  · exact short_addressForm hnumbers h
  · exact short_utxoForm h
  · exact short_inputForm hnumbers h
  · exact short_outputForm hnumbers h

theorem Short.read (hf : f.Short numbers) {args : List String} {c : Command}
    (h : f.read numbers args = .ok c) : c.Short := by
  obtain ⟨w, -, h⟩ := bind_eq_ok.mp h
  obtain ⟨⟨d, rest⟩, hd, h⟩ := bind_eq_ok.mp h
  cases rest with
  | nil =>
    obtain rfl := pure_eq_ok.mp h
    exact hf w hd
  | cons extra rest => cases h

end Form

/-- No number of a command that is typed is too long. -/
theorem Command.short_of_read {numbers : NumberReader} (hnumbers : numbers.Short) {name : String}
    {args : List String} {c : Command} (h : Command.read numbers name args = .ok c) : c.Short := by
  unfold Command.read at h
  split at h
  · rename_i f hf
    exact (Form.short_topForm hnumbers hf).read h
  · rename_i forms hforms
    obtain ⟨w, -, h⟩ := bind_eq_ok.mp h
    split at h
    · cases h
    · split at h
      · rename_i f hf
        exact (Form.short_groupForm hnumbers hforms hf).read h
      · cases h
  · cases h

end Taproot.CommandLine
