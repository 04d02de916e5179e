import Taproot.Script.Element

/-! # Reading scripts

A script is read byte by byte: a length up to 75, or one of three opcodes with a length behind it, is
followed by data, and every other byte is an opcode. What is written for a list of elements is read as
these elements, and no push could be written shorter.
-/
namespace Taproot

/-! ## Reading an element -/

/-- A push of so many of the next bytes. -/
def takePush (n : Nat) (b : Bytes) : Option (Element × Bytes) :=
  if n ≤ b.length then some (.push (b.take n), b.drop n) else none

/-- A push behind its length, which takes `width` bytes. -/
def takeSized (width : Nat) (b : Bytes) : Option (Element × Bytes) :=
  if width ≤ b.length then takePush (Bytes.toNatLE (b.take width)) (b.drop width) else none

theorem takePush_eq_some {n : Nat} {b rest : Bytes} {e : Element} :
    takePush n b = some (e, rest) ↔ ∃ d : Bytes, d.length = n ∧ b = d ++ rest ∧ e = .push d := by
  unfold takePush
  constructor
  · intro h
    split at h
    · cases h
      exact ⟨b.take n, by rw [List.length_take]; omega, (List.take_append_drop n b).symm, rfl⟩
    · cases h
  · rintro ⟨d, rfl, rfl, rfl⟩
    rw [if_pos (by simp), List.take_left, List.drop_left]

theorem takeSized_eq_some {width : Nat} {b rest : Bytes} {e : Element} :
    takeSized width b = some (e, rest) ↔ ∃ size d : Bytes, size.length = width ∧
      d.length = size.toNatLE ∧ b = size ++ (d ++ rest) ∧ e = .push d := by
  unfold takeSized
  constructor
  · intro h
    split at h
    · obtain ⟨d, hd, hb, he⟩ := takePush_eq_some.mp h
      refine ⟨b.take width, d, by rw [List.length_take]; omega, hd, ?_, he⟩
      rw [← hb, List.take_append_drop]
    · cases h
  · rintro ⟨size, d, rfl, hd, rfl, rfl⟩
    rw [if_pos (by simp), List.take_left, List.drop_left]
    exact takePush_eq_some.mpr ⟨d, hd, rfl, rfl⟩

namespace Element

/-- The first element and the bytes behind it. -/
def read? : Bytes → Option (Element × Bytes)
  | [] => none
  | code :: rest =>
    if code = Opcode.zero then some (.op code, rest)
    else if code < Opcode.pushData1 then takePush code.toNat rest
    else if code = Opcode.pushData1 then takeSized 1 rest
    else if code = Opcode.pushData2 then takeSized 2 rest
    else if code = Opcode.pushData4 then takeSized 4 rest
    else some (.op code, rest)

/-- The opcodes that are followed by a length, and the bytes that it takes. -/
def sizedPushes : List (Opcode × Nat) :=
  [(Opcode.pushData1, 1), (Opcode.pushData2, 2), (Opcode.pushData4, 4)]

/-- The ways to write an element. -/
inductive Form : Element → Bytes → Prop
  | op {code : Opcode} (h : code = Opcode.zero ∨ Opcode.pushData4 < code) : Form (.op code) [code]
  | direct {d : Bytes} (hpos : 0 < d.length) (h : d.length < 0x4c) :
    Form (.push d) (UInt8.ofNat d.length :: d)
  | sized {code : Opcode} {size d : Bytes} (hcode : (code, size.length) ∈ sizedPushes)
    (h : d.length = size.toNatLE) : Form (.push d) (code :: (size ++ d))

theorem Form.ne_nil {e : Element} {form : Bytes} (h : e.Form form) : form ≠ [] := by
  cases h <;> exact List.cons_ne_nil _ _

theorem form_of_read? {b rest : Bytes} {e : Element} (h : read? b = some (e, rest)) :
    ∃ form, e.Form form ∧ b = form ++ rest := by
  cases b with
  | nil => cases h
  | cons code b =>
    rw [read?] at h
    split at h
    · cases h
      exact ⟨[code], .op (.inl ‹_›), rfl⟩
    · rename_i hzero
      split at h
      · rename_i hlow
        obtain ⟨d, hd, rfl, rfl⟩ := takePush_eq_some.mp h
        have hpos : 0 < d.length := by
          rw [hd]
          exact Nat.pos_of_ne_zero fun hz => hzero (UInt8.toNat_inj.mp hz)
        have hlt : d.length < 0x4c := hd ▸ UInt8.lt_iff_toNat_lt.mp hlow
        refine ⟨UInt8.ofNat d.length :: d, .direct hpos hlt, ?_⟩
        rw [hd, UInt8.ofNat_toNat, List.cons_append]
      · rename_i hhigh
        have hsized {width : Nat} (hcode : (code, width) ∈ sizedPushes)
            (h : takeSized width b = some (e, rest)) :
            ∃ form, e.Form form ∧ code :: b = form ++ rest := by
          obtain ⟨size, d, rfl, hd, rfl, rfl⟩ := takeSized_eq_some.mp h
          exact ⟨_, .sized hcode hd, by rw [List.cons_append, List.append_assoc]⟩
        split at h
        · subst code
          exact hsized (by decide) h
        · split at h
          · subst code
            exact hsized (by decide) h
          · split at h
            · subst code
              exact hsized (by decide) h
            · rename_i h₁ h₂ h₄
              cases h
              refine ⟨[code], .op (.inr ?_), rfl⟩
              have hcode : 0x4c ≤ code.toNat := UInt8.le_iff_toNat_le.mp (UInt8.not_lt.mp hhigh)
              have h₁ : code.toNat ≠ 0x4c := fun hc => h₁ (UInt8.toNat_inj.mp hc)
              have h₂ : code.toNat ≠ 0x4d := fun hc => h₂ (UInt8.toNat_inj.mp hc)
              have h₄ : code.toNat ≠ 0x4e := fun hc => h₄ (UInt8.toNat_inj.mp hc)
              exact UInt8.lt_iff_toNat_lt.mpr (show 0x4e < code.toNat by omega)

theorem read?_of_form {e : Element} {form : Bytes} (h : e.Form form) (rest : Bytes) :
    read? (form ++ rest) = some (e, rest) := by
  cases h with
  | @op code h =>
    rw [List.singleton_append, read?]
    rcases h with rfl | hhigh
    · rfl
    · have hhigh : 0x4e < code.toNat := UInt8.lt_iff_toNat_lt.mp hhigh
      have hne {k : UInt8} (hk : k.toNat ≤ 0x4e) : code ≠ k := by
        rintro rfl
        omega
      have hlow : ¬ code < Opcode.pushData1 := by
        rw [UInt8.lt_iff_toNat_lt]
        exact Nat.not_lt.mpr (Nat.le_of_lt (Nat.lt_of_le_of_lt (by decide) hhigh))
      rw [if_neg (hne (by decide)), if_neg hlow, if_neg (hne (by decide)), if_neg (hne (by decide)),
        if_neg (hne (by decide))]
  | @direct d hpos hlt =>
    have hlength : (UInt8.ofNat d.length).toNat = d.length := by
      rw [UInt8.toNat_ofNat', Nat.mod_eq_of_lt (by omega)]
    have hzero : UInt8.ofNat d.length ≠ Opcode.zero := by
      intro hz
      have hz : (UInt8.ofNat d.length).toNat = 0 := congrArg UInt8.toNat hz
      omega
    have hlow : UInt8.ofNat d.length < Opcode.pushData1 := by
      rw [UInt8.lt_iff_toNat_lt, hlength]
      exact hlt
    rw [List.cons_append, read?, if_neg hzero, if_pos hlow, hlength]
    exact takePush_eq_some.mpr ⟨d, rfl, rfl, rfl⟩
  | @sized code size d hcode hd =>
    have hread : takeSized size.length (size ++ (d ++ rest)) = some (.push d, rest) :=
      takeSized_eq_some.mpr ⟨size, d, rfl, hd, rfl, rfl⟩
    rw [List.cons_append, List.append_assoc]
    -- each opcode has its own width
    simp only [sizedPushes, List.mem_cons, Prod.mk.injEq, List.not_mem_nil, or_false] at hcode
    rcases hcode with ⟨rfl, hw⟩ | ⟨rfl, hw⟩ | ⟨rfl, hw⟩
    all_goals
      rw [hw] at hread
      exact hread

theorem read?_eq_some {b rest : Bytes} {e : Element} :
    read? b = some (e, rest) ↔ ∃ form, e.Form form ∧ b = form ++ rest := by
  constructor
  · exact form_of_read?
  · rintro ⟨form, h, rfl⟩
    exact read?_of_form h rest

theorem length_lt_of_read? {b rest : Bytes} {e : Element} (h : read? b = some (e, rest)) :
    rest.length < b.length := by
  obtain ⟨form, hform, rfl⟩ := read?_eq_some.mp h
  have hpos := List.length_pos_iff.mpr hform.ne_nil
  rw [List.length_append]
  omega

end Element

/-! ## Reading a script -/

namespace Script

/-- All elements up to the end. -/
def ofBytes? : Bytes → Option Script
  | [] => some []
  | code :: b =>
    match _h : Element.read? (code :: b) with
    | none => none
    | some (e, rest) => (ofBytes? rest).map (e :: ·)
termination_by b => b.length
decreasing_by exact Element.length_lt_of_read? _h

theorem ofBytes?_append {e : Element} {form : Bytes} (h : e.Form form) (rest : Bytes) :
    ofBytes? (form ++ rest) = (ofBytes? rest).map (e :: ·) := by
  have hread := Element.read?_of_form h rest
  obtain ⟨code, tail, rfl⟩ := List.exists_cons_of_ne_nil h.ne_nil
  rw [List.cons_append] at hread ⊢
  rw [ofBytes?]
  split
  · rename_i hnone
    rw [hread] at hnone
    cases hnone
  · rename_i e' rest' hsome
    rw [hread] at hsome
    cases hsome
    rfl

end Script

/-! ## What is written -/

namespace Element

/-- An opcode that is not about data, or data whose length fits into four bytes. -/
def Encodes : Element → Prop
  | .op code => code = Opcode.zero ∨ Opcode.negativeOne ≤ code
  | .push d => d.length < Bytes.bound 4

instance : (e : Element) → Decidable e.Encodes
  | .op code => inferInstanceAs (Decidable (code = Opcode.zero ∨ Opcode.negativeOne ≤ code))
  | .push d => inferInstanceAs (Decidable (d.length < Bytes.bound 4))

/-- The empty push is written as the opcode that pushes it. -/
def asRead : Element → Element
  | .push [] => .op .zero
  | e => e

theorem asRead_of_ne {e : Element} (h : e ≠ .push []) : e.asRead = e := by
  cases e with
  | op code => rfl
  | push d =>
    cases d with
    | nil => exact absurd rfl h
    | cons x d => rfl

/-- A length that takes `width` bytes, in the form that is written for it. -/
theorem form_ofNatLE {code : Opcode} {width : Nat} {d : Bytes}
    (hcode : (code, width) ∈ sizedPushes) (h : d.length < Bytes.bound width) :
    Form (push d) (code :: (Bytes.ofNatLE width d.length ++ d)) :=
  .sized (by rwa [Bytes.length_ofNatLE]) (Bytes.toNatLE_ofNatLE h).symm

theorem form_pushBytes {d : Bytes} (hne : d ≠ []) (h : d.length < Bytes.bound 4) :
    Form (push d) (pushBytes d) := by
  have hone : Bytes.bound 1 = 256 := rfl
  have htwo : Bytes.bound 2 = 65536 := rfl
  unfold pushBytes
  dsimp only
  split
  · exact .direct (List.length_pos_iff.mpr hne) ‹_›
  · split
    · change Form (push d) (Opcode.pushData1 :: (Bytes.ofNatLE 1 d.length ++ d))
      exact form_ofNatLE (by decide) (by omega)
    · split
      · exact form_ofNatLE (by decide) (by omega)
      · exact form_ofNatLE (by decide) h

/-- What is written for an element is one of its forms. -/
theorem form_bytes {e : Element} (h : e.Encodes) : e.asRead.Form e.bytes := by
  cases e with
  | op code =>
    refine .op (Or.imp_right (fun hcode => ?_) h)
    rw [UInt8.le_iff_toNat_le] at hcode
    rw [UInt8.lt_iff_toNat_lt]
    exact hcode
  | push d =>
    cases d with
    | nil => exact .op (.inl rfl)
    | cons x d => exact form_pushBytes (List.cons_ne_nil x d) h

theorem length_pushBytes (d : Bytes) : (pushBytes d).length = d.length +
    if d.length < 0x4c then 1 else if d.length ≤ 0xff then 2
    else if d.length ≤ 0xffff then 3 else 5 := by
  unfold pushBytes
  dsimp only
  split
  · rfl
  · split
    · rfl
    · split
      · rw [List.length_cons, List.length_append, Bytes.length_ofNatLE]
        omega
      · rw [List.length_cons, List.length_append, Bytes.length_ofNatLE]
        omega

/-- No form is shorter than the one that is written. -/
theorem length_bytes_le {e : Element} {form : Bytes} (h : e.asRead.Form form) :
    e.bytes.length ≤ form.length := by
  have hpos := List.length_pos_iff.mpr h.ne_nil
  cases e with
  | op code => exact hpos
  | push d =>
    cases d with
    | nil => exact hpos
    | cons x d =>
      have hbytes : (push (x :: d)).bytes = pushBytes (x :: d) := rfl
      rw [hbytes, length_pushBytes]
      generalize hd : x :: d = data at h ⊢
      rw [asRead_of_ne (by rw [← hd]; simp)] at h
      cases h with
      | direct _ hlt =>
        exact Nat.le_of_eq (by rw [if_pos hlt, List.length_cons])
      | @sized code size _ hcode hsize =>
        have hlt := Bytes.toNatLE_lt size
        have hone : Bytes.bound 1 = 256 := rfl
        have htwo : Bytes.bound 2 = 65536 := rfl
        simp only [sizedPushes, List.mem_cons, Prod.mk.injEq, List.not_mem_nil, or_false] at hcode
        rw [List.length_cons, List.length_append]
        rcases hcode with ⟨-, hw⟩ | ⟨-, hw⟩ | ⟨-, hw⟩
        all_goals
          rw [hw] at hlt ⊢
          repeat' split
          all_goals omega

end Element

namespace Script

theorem ofBytes?_bytes {s : Script} (h : ∀ e ∈ s, e.Encodes) :
    ofBytes? s.bytes = some (s.map Element.asRead) := by
  induction s with
  | nil => rw [bytes, List.flatMap_nil, ofBytes?, List.map_nil]
  | cons e s ih =>
    have hform := Element.form_bytes (h e List.mem_cons_self)
    have hs := ih fun e' he' => h e' (List.mem_cons_of_mem e he')
    rw [bytes] at hs ⊢
    rw [List.flatMap_cons, ofBytes?_append hform, hs]
    rfl

/-- Elements without the empty push are told by the bytes that are written for them. -/
theorem bytes_inj {s s' : Script} (h : ∀ e ∈ s, e.Encodes) (h' : ∀ e ∈ s', e.Encodes)
    (hne : Element.push [] ∉ s) (hne' : Element.push [] ∉ s') (hb : s.bytes = s'.bytes) :
    s = s' := by
  have hread {s : Script} (hne : Element.push [] ∉ s) : s.map Element.asRead = s := by
    calc s.map Element.asRead = s.map id :=
          List.map_congr_left fun e he => Element.asRead_of_ne fun hempty => hne (hempty ▸ he)
      _ = s := List.map_id s
  have hs := ofBytes?_bytes h
  rw [hb, ofBytes?_bytes h', hread hne, hread hne'] at hs
  exact (Option.some.inj hs).symm

end Script
end Taproot
