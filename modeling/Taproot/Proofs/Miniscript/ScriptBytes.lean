import Taproot.Proofs.Miniscript.Predicates
import Taproot.Proofs.Script.Decoding
import Taproot.Proofs.Script.MinimalNumbers

/-! # Bytes of fragments

A fragment's script is made of opcodes that are not about data, of numbers, and of the keys and images
that the fragment names. What is written for it is therefore read as its elements, and two fragments
without empty names have the same bytes only where they have the same elements.
-/
namespace Taproot.Miniscript

theorem Fragment.mem_keysAll {key : Bytes} {xs : List Fragment} :
    key ∈ keysAll xs ↔ ∃ x ∈ xs, key ∈ keys x := by
  induction xs with
  | nil => simp [keysAll]
  | cons x xs ih => simp [keysAll, ih]

/-! ## What scripts are made of -/

section

variable {P : Element → Prop} (hop : ∀ code : Opcode, (Element.op code).Encodes → P (.op code))

include hop

theorem forall_mem_verified {X : Script} (h : ∀ e ∈ X, P e) : ∀ e ∈ verified X, P e := by
  have hlast {code v : Opcode} (hv : code.verifyForm? = some v) : P (.op v) := by
    unfold Opcode.verifyForm? at hv
    repeat' split at hv
    all_goals cases hv
    all_goals exact hop _ (by decide)
  have hverify : ∀ e ∈ X ++ [.op .verify], P e :=
    List.forall_mem_append.mpr ⟨h, List.forall_mem_singleton.mpr (hop _ (by decide))⟩
  unfold verified
  split
  · split
    · rename_i hv
      exact List.forall_mem_append.mpr
        ⟨fun e he => h e (List.dropLast_subset X he), List.forall_mem_singleton.mpr (hlast hv)⟩
    · exact hverify
  · exact hverify

theorem forall_mem_wrapScript (w : Wrapper) {X : Script} (h : ∀ e ∈ X, P e) :
    ∀ e ∈ wrapScript w X, P e := by
  cases w with
  | v => exact forall_mem_verified hop h
  | a | s | c | d | j | n =>
    simpa (disch := decide) [wrapScript, or_imp, forall_and, hop] using h

variable (hint : ∀ n : Int, P (.ofInt n))

include hint

theorem forall_mem_multiScript (k : Int) {keys : List Bytes} (hkeys : ∀ key ∈ keys, P (.push key)) :
    ∀ e ∈ multiScript k keys, P e := by
  have hk : ∀ e ∈ [.ofInt k, .op .numEqual], P e := by
    simp (disch := decide) [hop, hint]
  cases keys with
  | nil => exact hk
  | cons key keys =>
    rw [List.forall_mem_cons] at hkeys
    refine List.forall_mem_append.mpr ⟨List.forall_mem_append.mpr ⟨?_, fun e he => ?_⟩, hk⟩
    · simp (disch := decide) [hop, hkeys.1]
    · obtain ⟨key', hkey', he⟩ := List.mem_flatMap.mp he
      have hpair : ∀ e ∈ [.push key', .op .checkSigAdd], P e := by
        simp (disch := decide) [hop, hkeys.2 key' hkey']
      exact hpair e he

omit hint in
theorem forall_mem_summands {xs : List Fragment} (h : ∀ x ∈ xs, ∀ e ∈ x.script, P e) :
    ∀ e ∈ Fragment.summands xs, P e := by
  induction xs with
  | nil => exact List.forall_mem_nil _
  | cons x xs ih =>
    rw [List.forall_mem_cons] at h
    exact List.forall_mem_append.mpr ⟨List.forall_mem_append.mpr
      ⟨h.1, List.forall_mem_singleton.mpr (hop _ (by decide))⟩, ih h.2⟩

/-- What holds of opcodes that are not about data, of numbers, and of the keys and images of a
fragment holds of all its elements. -/
theorem forall_mem_script {f : Fragment} (hkeys : ∀ key ∈ f.keys, P (.push key))
    (himages : ∀ image ∈ f.images, P (.push image)) : ∀ e ∈ f.script, P e := by
  induction f with
  | just value =>
    cases value <;> exact List.forall_mem_singleton.mpr (hop _ (by decide))
  | key k => exact List.forall_mem_singleton.mpr (hkeys k (List.mem_singleton_self k))
  | image h =>
    have hh := himages h (List.mem_singleton_self h)
    simp (disch := decide) [Fragment.script, hop, hint, hh]
  | after n | older n =>
    simp (disch := decide) [Fragment.script, hop, hint]
  | multi k keys => exact forall_mem_multiScript hop hint k hkeys
  | andV x y ihx ihy | andB x y ihx ihy | orB x y ihx ihy | orC x y ihx ihy | orD x y ihx ihy
  | orI x y ihx ihy =>
    simp only [Fragment.keys, Fragment.images, List.forall_mem_append] at hkeys himages
    have hx := ihx hkeys.1 himages.1
    have hy := ihy hkeys.2 himages.2
    simpa (disch := decide) [Fragment.script, or_imp, forall_and, hop] using And.intro hx hy
  | andOr x y z ihx ihy ihz =>
    simp only [Fragment.keys, Fragment.images, List.forall_mem_append] at hkeys himages
    have hx := ihx hkeys.1.1 himages.1.1
    have hy := ihy hkeys.1.2 himages.1.2
    have hz := ihz hkeys.2 himages.2
    simpa (disch := decide) [Fragment.script, or_imp, forall_and, hop] using
      And.intro hx (And.intro hz hy)
  | thresh k xs ih =>
    have hxs : ∀ x ∈ xs, ∀ e ∈ x.script, P e := fun x hx =>
      ih x hx (fun key hkey => hkeys key (Fragment.mem_keysAll.mpr ⟨x, hx, hkey⟩))
        fun image himage => himages image (Fragment.mem_imagesAll.mpr ⟨x, hx, himage⟩)
    have hk : ∀ e ∈ [.ofInt k, .op .equal], P e := by
      simp (disch := decide) [hop, hint]
    cases xs with
    | nil => exact hk
    | cons x xs =>
      rw [List.forall_mem_cons] at hxs
      exact List.forall_mem_append.mpr
        ⟨List.forall_mem_append.mpr ⟨hxs.1, forall_mem_summands hop hxs.2⟩, hk⟩
  | wrap w x ih => exact forall_mem_wrapScript hop w (ih hkeys himages)

end

/-! ## Numbers -/

theorem encodes_of_pushed? {code : Opcode} {data : Bytes}
    (h : (Element.op code).pushed? = some data) : (Element.op code).Encodes := by
  unfold Element.pushed? at h
  dsimp only at h
  split at h
  · exact .inl ‹_›
  · split at h
    · subst code
      decide
    · split at h
      · rename_i hsmall
        exact .inr (UInt8.le_trans (by decide) hsmall.1)
      · cases h

/-- Only zero is written with no bytes, and it has an opcode. -/
theorem ofInt_ne_push_nil (n : Int) : Element.ofInt n ≠ .push [] := by
  intro h
  have hp := Element.pushed?_ofInt n
  rw [h] at hp
  obtain rfl : n = 0 := by rw [← ScriptNumber.decode_encode n, ← Option.some.inj hp]; rfl
  cases h

/-! ## Reading the bytes of a fragment -/

theorem op_encodes_of_mem_script {f : Fragment} {code : Opcode} (h : .op code ∈ f.script) :
    (Element.op code).Encodes := by
  have hf : ∀ e ∈ f.script, ∀ code, e = .op code → (Element.op code).Encodes := by
    refine forall_mem_script (fun c hc code h => ?_) (fun n code h => ?_) ?_ ?_
    · cases h
      exact hc
    · exact encodes_of_pushed? (h ▸ Element.pushed?_ofInt n)
    · rintro key - code ⟨⟩
    · rintro image - code ⟨⟩
  exact hf _ h code rfl

theorem encodes_of_mem_script {f : Fragment}
    (h : ∀ d, .push d ∈ f.script → d.length < Bytes.bound 4) : ∀ e ∈ f.script, e.Encodes := by
  intro e he
  cases e with
  | op code => exact op_encodes_of_mem_script he
  | push d => exact h d he

theorem push_nil_not_mem_script {f : Fragment} (hkeys : [] ∉ f.keys) (himages : [] ∉ f.images) :
    .push [] ∉ f.script := by
  have hname {names : List Bytes} (h : [] ∉ names) : ∀ d ∈ names, Element.push d ≠ .push [] := by
    rintro d hd hempty
    cases hempty
    exact h hd
  have hf : ∀ e ∈ f.script, e ≠ .push [] :=
    forall_mem_script (fun _ _ h => Element.noConfusion h) ofInt_ne_push_nil (hname hkeys)
      (hname himages)
  exact fun h => hf _ h rfl

/-- Elements are read from the bytes that are written for them, each in its shortest form. That is so
for every fragment, and fragments without empty names that have the same bytes have the same
elements. -/
theorem script_read_from_bytes :
    (∀ s : Script, (∀ e ∈ s, e.Encodes) →
      Script.ofBytes? s.bytes = some (s.map Element.asRead) ∧
        ∀ e ∈ s, Element.read? e.bytes = some (e.asRead, []) ∧
          ∀ b, Element.read? b = some (e.asRead, []) → e.bytes.length ≤ b.length) ∧
    (∀ f : Fragment, (∀ d, .push d ∈ f.script → d.length < Bytes.bound 4) →
      Script.ofBytes? f.script.bytes = some (f.script.map Element.asRead)) ∧
    ∀ f g : Fragment,
      (∀ d, .push d ∈ f.script → d.length < Bytes.bound 4) →
      (∀ d, .push d ∈ g.script → d.length < Bytes.bound 4) →
      [] ∉ f.keys → [] ∉ f.images → [] ∉ g.keys → [] ∉ g.images →
      f.script.bytes = g.script.bytes → f.script = g.script := by
  refine ⟨fun s hs => ⟨Script.ofBytes?_bytes hs, fun e he => ⟨?_, fun b hb => ?_⟩⟩,
    fun f hf => Script.ofBytes?_bytes (encodes_of_mem_script hf),
    fun f g hf hg hfk hfi hgk hgi hb => ?_⟩
  · have hread := Element.read?_of_form (Element.form_bytes (hs e he)) []
    rwa [List.append_nil] at hread
  · obtain ⟨form, hform, rfl⟩ := Element.read?_eq_some.mp hb
    rw [List.append_nil]
    exact Element.length_bytes_le hform
  · exact Script.bytes_inj (encodes_of_mem_script hf) (encodes_of_mem_script hg)
      (push_nil_not_mem_script hfk hfi) (push_nil_not_mem_script hgk hgi) hb

namespace Nesting

def signed (key : Bytes) : Fragment := .wrap .c (.key key)

/-- Three keys in a row, of which the last two belong together. -/
def right : Fragment :=
  .andV (.wrap .v (signed [1])) (.andV (.wrap .v (signed [2])) (signed [3]))

/-- The same keys, of which the first two belong together. -/
def left : Fragment :=
  .andV (.andV (.wrap .v (signed [1])) (.wrap .v (signed [2]))) (signed [3])

/-- Their elements are the same because their bytes are, and a push that needs a length byte of its
own is read back. -/
theorem reads_from_bytes :
    right ≠ left ∧ right.script.bytes = left.script.bytes ∧ right.script = left.script ∧
      Script.ofBytes? right.script.bytes = some right.script ∧
      Script.ofBytes? (0x00 :: 0x4c :: 0x4c :: List.replicate 76 7) =
        some [.op .zero, .push (List.replicate 76 7)] := by
  have hright : ∀ e ∈ right.script, e.Encodes := by decide
  have hleft : ∀ e ∈ left.script, e.Encodes := by decide
  refine ⟨fun h => ?_, rfl, ?_, ?_, ?_⟩
  · injection h with hx
    injection hx
  · exact script_read_from_bytes.2.2 right left (fun _ => hright _) (fun _ => hleft _) (by decide)
      (by decide) (by decide) (by decide) rfl
  · exact script_read_from_bytes.2.1 right fun _ => hright _
  · exact (script_read_from_bytes.1 [.push [], .push (List.replicate 76 7)] (by decide)).1

end Nesting
end Taproot.Miniscript
