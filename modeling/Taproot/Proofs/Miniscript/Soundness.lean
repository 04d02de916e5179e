import Taproot.Proofs.Hash.Windows
import Taproot.Proofs.Miniscript.Behaviour

/-! # Witnesses open scripts

A witness that satisfies a fragment of type `B` makes its script succeed, with the stack at one true
item and nothing set aside.
-/
namespace Taproot.Miniscript

open ScriptContext
open Element (op)

variable {c : ScriptContext} {m : Material}

/-- What a material answers holds in the context of the script. -/
structure Material.Honest (m : Material) (c : ScriptContext) : Prop where
  /-- An accepted signature is not empty: the empty one is false. -/
  sign : ∀ {k s}, m.sign k = some s → c.checks k s = some true
  preimage : ∀ {h p}, m.preimage h = some p → p.length = 32 ∧ sha256 p = h
  older : ∀ {n}, m.older n = true → c.sequenceReached n = true
  after : ∀ {n}, m.after n = true → c.lockTimeReached n = true

theorem checks_nil {key : Bytes} (h : key.length = 32) : c.checks key [] = some false := by
  have hk : key ≠ [] := fun h' => by simp [h'] at h
  simp [checks, hk]

theorem Material.Honest.substantial (hm : m.Honest c) : m.Substantial where
  sign {k s} h := by
    have hc := hm.sign h
    rintro rfl
    unfold checks at hc
    split at hc <;> simp at hc
  preimage {h p} hp := by
    have hl := (hm.preimage hp).1
    rintro rfl
    simp at hl

/-- A predicate that cannot be met by what dissatisfies it. -/
def Request.Safe (r : Request) : Prop :=
  r.InRange ∧ r ≠ .preimage (sha256 (List.replicate 32 0))

/-! ## Leaves of the tree -/

theorem behaves_image {h p : Bytes} {b : Bool} (hl : p.length = 32) (hb : (h == sha256 p) = b) :
    Behaves c .B true (Fragment.image h).script b [p] := by
  refine .of_run_one fun s => ?_
  have h₁ : c.Runs [.op .size] (p :: s) (ScriptNumber.encode 32 :: p :: s) := by
    have h : c.onStack .size (p :: s) = some (ScriptNumber.encode p.length :: p :: s) := rfl
    rw [hl] at h
    exact Runs.op h
  have h₂ : c.Runs [.ofInt 32] (ScriptNumber.encode 32 :: p :: s)
      (ScriptNumber.encode 32 :: ScriptNumber.encode 32 :: p :: s) := Runs.pushInt 32
  have h₃ : c.Runs [.op .equalVerify] (ScriptNumber.encode 32 :: ScriptNumber.encode 32 :: p :: s)
      (p :: s) := by
    refine Runs.op ?_
    change (some (boolItem (ScriptNumber.encode 32 == ScriptNumber.encode 32) :: p :: s)).bind
      StackOp.verify = _
    rw [beq_self_eq_true, Option.bind_some, StackOp.verify, isTrue_boolItem]
    rfl
  have h₄ : c.Runs [.op .sha256] (p :: s) (sha256 p :: s) := Runs.op rfl
  have h₅ : c.Runs [.push h] (sha256 p :: s) (h :: sha256 p :: s) := Runs.push h
  have h₆ : c.Runs [.op .equal] (h :: sha256 p :: s) (boolItem b :: s) := by
    rw [← hb]
    exact Runs.op rfl
  exact h₁.append (h₂.append (h₃.append (h₄.append (h₅.append h₆))))

theorem behaves_reached {n : Int} (hn : 1 ≤ n) {code : Opcode} {reached : Int → Bool}
    (hp : isStackOp code = true)
    (hc : ∀ s, c.onStack code s = StackOp.checkReached reached s) (hr : reached n = true) :
    Behaves c .B false [.ofInt n, .op code] true [] := by
  refine ⟨ScriptNumber.encode n, ⟨isTrue_encode (by omega), nofun⟩, fun s => ?_⟩
  refine (Runs.pushInt n).append (Runs.op ?_ hp)
  rw [hc, StackOp.checkReached, ScriptNumber.decode_encode, if_pos hr]
  rfl

/-! ## Signatures of several keys -/

theorem checks_vote (hm : m.Honest c) {v : Vote} (hl : v.key.length = 32)
    (hs : ∀ s, v.signature = some s → m.sign v.key = some s) :
    c.checks v.key v.item = some v.signature.isSome := by
  cases h : v.signature with
  | none =>
    rw [Vote.item, h]
    exact checks_nil hl
  | some s =>
    rw [Vote.item, h]
    exact hm.sign (hs s h)

theorem runs_checkSigAdd {votes : List Vote}
    (hv : ∀ v ∈ votes, c.checks v.key v.item = some v.signature.isSome) (n : Nat) (s : List Bytes) :
    c.Runs ((votes.map Vote.key).flatMap fun key => [.push key, .op .checkSigAdd])
      (ScriptNumber.encode n :: (votes.map Vote.item ++ s))
      (ScriptNumber.encode (n + votes.countP (·.signature.isSome) : Nat) :: s) := by
  induction votes generalizing n with
  | nil => exact Runs.nil
  | cons v votes ih =>
    have hv₁ := hv v List.mem_cons_self
    have ih := ih (fun w hw => hv w (List.mem_cons_of_mem v hw)) (n + v.signature.isSome.toNat)
    have h₁ : c.Runs [.push v.key, .op .checkSigAdd]
        (ScriptNumber.encode n :: v.item :: (votes.map Vote.item ++ s))
        (ScriptNumber.encode (n + v.signature.isSome.toNat : Nat) :: (votes.map Vote.item ++ s)) := by
      refine (Runs.push v.key).append (Runs.op ?_)
      change (c.checks v.key v.item).map _ = _
      rw [hv₁, ScriptNumber.decode_encode]
      cases v.signature <;> rfl
    have h₂ := h₁.append ih
    rw [List.countP_cons]
    cases hs : v.signature with
    | none => simpa [hs] using h₂
    | some sig => simpa [hs, Nat.add_assoc, Nat.add_comm 1] using h₂

theorem behaves_multi {k : Int} {votes : List Vote} {b : Bool} (hk : 1 ≤ k) (hne : votes ≠ [])
    (hv : ∀ v ∈ votes, c.checks v.key v.item = some v.signature.isSome)
    (hc : votes.countP (·.signature.isSome) = if b then k.toNat else 0) :
    Behaves c .B true (multiScript k (votes.map Vote.key)) b (votes.map Vote.item).reverse := by
  refine .of_run_one fun s => ?_
  rw [List.reverse_reverse]
  cases votes with
  | nil => exact absurd rfl hne
  | cons v votes =>
    have h₁ : c.Runs [.push v.key, .op .checkSig] (v.item :: (votes.map Vote.item ++ s))
        (ScriptNumber.encode (v.signature.isSome.toNat : Nat) :: (votes.map Vote.item ++ s)) := by
      refine (Runs.push v.key).append (Runs.op ?_)
      change (c.checks v.key v.item).map _ = _
      rw [hv v List.mem_cons_self, Option.map_some, boolItem_eq_encode]
      cases v.signature <;> rfl
    have h₂ := runs_checkSigAdd (fun w hw => hv w (List.mem_cons_of_mem v hw))
      v.signature.isSome.toNat s
    have h₃ : c.Runs [.ofInt k, .op .numEqual]
        (ScriptNumber.encode (if b then k.toNat else 0 : Nat) :: s) (boolItem b :: s) := by
      refine (Runs.pushInt k).append (Runs.op ?_)
      change some (boolItem (ScriptNumber.decode _ == ScriptNumber.decode _) :: s) = _
      rw [ScriptNumber.decode_encode, ScriptNumber.decode_encode]
      cases b
      · rw [beq_eq_false_iff_ne.mpr (by simp; omega)]
      · rw [beq_iff_eq.mpr (by simp; omega)]
    have hs : v.signature.isSome.toNat + votes.countP (·.signature.isSome) =
        if b then k.toNat else 0 := by
      rw [← hc, List.countP_cons]
      cases v.signature
      · simp
      · simp
        omega
    rw [hs] at h₂
    exact (h₁.append h₂).append h₃

/-! ## Thresholds -/

theorem runs_summand {X : Script} {b : Bool} {w : Witness} (hx : Behaves c .W true X b w) (n : Nat)
    (s : List Bytes) : c.Runs (X ++ [op .add]) (ScriptNumber.encode n :: (w.reverse ++ s))
      (ScriptNumber.encode (n + b.toNat : Nat) :: s) := by
  obtain ⟨item, hv, hx⟩ := hx
  have hd : ScriptNumber.decode item = b.toNat := by
    rw [hv.eq_boolItem, boolItem_eq_encode, ScriptNumber.decode_encode]
    cases b <;> rfl
  rcases hx with hx | hx
  · refine (hx _ s).append (Runs.op ?_)
    change some (ScriptNumber.encode (ScriptNumber.decode item + ScriptNumber.decode _) :: s) = _
    rw [hd, ScriptNumber.decode_encode, Int.add_comm, Int.natCast_add]
  · refine (hx _ s).append (Runs.op ?_)
    change some (ScriptNumber.encode (ScriptNumber.decode _ + ScriptNumber.decode item) :: s) = _
    rw [hd, ScriptNumber.decode_encode, Int.natCast_add]

theorem runs_summands {parts : List Part}
    (hp : ∀ p ∈ parts, Behaves c .W true p.fragment.script p.satisfied p.witness) (n : Nat)
    (s : List Bytes) : c.Runs (Fragment.summands (parts.map Part.fragment))
      (ScriptNumber.encode n :: ((stackUp (parts.map Part.witness)).reverse ++ s))
      (ScriptNumber.encode (n + parts.countP (·.satisfied) : Nat) :: s) := by
  induction parts generalizing n with
  | nil => exact Runs.nil
  | cons p parts ih =>
    have h₁ := runs_summand (hp p List.mem_cons_self) n
      ((stackUp (parts.map Part.witness)).reverse ++ s)
    have h₂ := ih (fun q hq => hp q (List.mem_cons_of_mem p hq)) (n + p.satisfied.toNat)
    rw [List.map_cons, List.map_cons, stackUp_cons, List.reverse_append, List.append_assoc,
      List.countP_cons]
    have hs : n + p.satisfied.toNat + parts.countP (·.satisfied) =
        n + (parts.countP (·.satisfied) + if p.satisfied then 1 else 0) := by
      cases p.satisfied
      · simp
      · simp
        omega
    rw [hs] at h₂
    exact h₁.append h₂

theorem behaves_thresh {k : Int} {p : Part} {parts : List Part} {b : Bool} (hk : 1 ≤ k)
    (hf : Behaves c .B true p.fragment.script p.satisfied p.witness)
    (hp : ∀ q ∈ parts, Behaves c .W true q.fragment.script q.satisfied q.witness)
    (hc : (p :: parts).countP (·.satisfied) = if b then k.toNat else 0) :
    Behaves c .B true (Fragment.thresh k ((p :: parts).map Part.fragment)).script b
      (stackUp ((p :: parts).map Part.witness)) := by
  refine .of_run_one fun s => ?_
  have h₁ := hf.run_one ((stackUp (parts.map Part.witness)).reverse ++ s)
  have h₂ := runs_summands hp p.satisfied.toNat s
  have h₃ : c.Runs [.ofInt k, .op .equal]
      (ScriptNumber.encode (if b then k.toNat else 0 : Nat) :: s) (boolItem b :: s) := by
    refine (Runs.pushInt k).append (Runs.op ?_)
    change some (boolItem (ScriptNumber.encode k == ScriptNumber.encode _) :: s) = _
    cases b
    · rw [beq_eq_false_iff_ne.mpr fun h => ?_]
      have := ScriptNumber.encode_injective h
      simp at this
      omega
    · rw [show ((if true then k.toNat else 0 : Nat) : Int) = k by simp; omega, beq_self_eq_true]
  have hs : p.satisfied.toNat + parts.countP (·.satisfied) = if b then k.toNat else 0 := by
    rw [← hc, List.countP_cons]
    cases p.satisfied
    · simp
    · simp
      omega
  have hb : boolItem p.satisfied = ScriptNumber.encode (p.satisfied.toNat : Nat) := by
    rw [boolItem_eq_encode]
    cases p.satisfied <;> rfl
  rw [hs] at h₂
  rw [hb] at h₁
  rw [List.map_cons, List.map_cons, stackUp_cons, List.reverse_append, List.append_assoc]
  exact (h₁.append h₂).append h₃

/-! ## All fragments -/

theorem behaves_just (b : Bool) : Behaves c .B true (Fragment.just b).script b [] := by
  refine .of_run_one fun s => ?_
  cases b
  · exact Runs.op rfl
  · have h := (onStack_small (c := c) (s := s) (n := 1) (by omega)).2
    rw [ScriptNumber.encode_one] at h
    exact Runs.op h

/-- What a wrapper does to the promise of the expression in it. -/
theorem Behaves.wrapped {letter : Wrapper} {x t : ExprType} {X : Script} {b : Bool} {w : Witness}
    (ht : ExprType.wrap letter x = .ok t) (hd : letter ≠ .d)
    (hn : b = false → letter ≠ .v ∧ letter ≠ .j) (hs : Sized x w.length)
    (htop : b = true → x.n = true → HasTop w) (h : Behaves c x.base x.u X b w) :
    Behaves c t.base t.u (wrapScript letter X) b w := by
  obtain ⟨ha, rfl⟩ := ExprType.wrap_eq_ok ht
  cases letter with
  | d => exact absurd rfl hd
  | a =>
    rw [show x.base = .B by simpa [ExprType.admits] using ha] at h
    exact h.wrapA
  | s =>
    obtain ⟨hb, ho⟩ : x.base = .B ∧ x.o = true := by simpa [ExprType.admits] using ha
    rw [hb] at h
    exact h.wrapS (hs.one ho)
  | c =>
    rw [show x.base = .K by simpa [ExprType.admits] using ha] at h
    exact h.wrapC
  | v =>
    rw [show x.base = .B by simpa [ExprType.admits] using ha] at h
    cases b with
    | false => exact absurd rfl (hn rfl).1
    | true => exact h.wrapV
  | j =>
    obtain ⟨hb, hx⟩ : x.base = .B ∧ x.n = true := by simpa [ExprType.admits] using ha
    rw [hb] at h
    cases b with
    | false => exact absurd rfl (hn rfl).2
    | true => exact h.wrapJ (htop rfl hx)
  | n =>
    rw [show x.base = .B by simpa [ExprType.admits] using ha] at h
    exact h.wrapN

theorem exists_of_forall₂ {α β : Type} {R : α → β → Prop} {as : List α} {bs : List β}
    (h : List.Forall₂ R as bs) {a : α} (ha : a ∈ as) : ∃ b ∈ bs, R a b := by
  induction h with
  | nil => cases ha
  | @cons a' b as bs hab _ ih =>
    rcases List.mem_cons.mp ha with rfl | ha
    · exact ⟨b, List.mem_cons_self, hab⟩
    · obtain ⟨b', hb', hr⟩ := ih ha
      exact ⟨b', List.mem_cons_of_mem b hb', hr⟩

/-- Predicates of parts are predicates of the whole. -/
theorem safe_append {xs ys : List Request} (h : ∀ r ∈ xs ++ ys, r.Safe) :
    (∀ r ∈ xs, r.Safe) ∧ ∀ r ∈ ys, r.Safe :=
  List.forall_mem_append.mp h

theorem HasWitness.behaves {f : Fragment} {b : Bool} {w : Witness} {t : ExprType}
    (hm : m.Honest c) (hw : HasWitness m f b w) (ht : f.HasType t)
    (hp : ∀ r ∈ f.predicates, r.Safe) : Behaves c t.base t.u f.script b w := by
  induction hw generalizing t with
  | just b =>
    cases ht
    exact behaves_just b
  | sign h =>
    cases ht
    exact ⟨_, _, hm.sign h, fun _ => Runs.push _⟩
  | noSign k =>
    cases ht
    have hk : (Request.sign k).Safe := hp _ List.mem_cons_self
    exact ⟨k, falseItem, checks_nil hk.1, fun _ => Runs.push k⟩
  | preimage h =>
    cases ht
    obtain ⟨hl, rfl⟩ := hm.preimage h
    exact behaves_image hl (beq_self_eq_true _)
  | noPreimage d =>
    cases ht
    have hd : (Request.preimage d).Safe := hp _ List.mem_cons_self
    refine behaves_image (by simp) (beq_eq_false_iff_ne.mpr fun h => hd.2 ?_)
    rw [h]
  | @after n h =>
    cases ht
    have hn : (Request.after n).Safe := hp _ List.mem_cons_self
    exact behaves_reached hn.1.1 rfl (fun _ => rfl) (hm.after h)
  | @older n h =>
    cases ht
    have hn : (Request.older n).Safe := hp _ List.mem_cons_self
    exact behaves_reached hn.1.1 rfl (fun _ => rfl) (hm.older h)
  | @multi k votes b hs hc =>
    cases ht with
    | multi h =>
      obtain ⟨hk, -, rfl⟩ := ExprType.multi_eq_ok h
      refine behaves_multi hk.1 (by rintro rfl; simp at hk; omega) (fun v hv => ?_) hc
      have hl : (Request.sign v.key).Safe :=
        hp _ (List.mem_map_of_mem (List.mem_map_of_mem hv))
      exact checks_vote hm hl.1 (hs v hv)
  | andV _ _ ihx ihy =>
    cases ht with
    | andV hx hy h =>
      obtain ⟨hbx, hby, rfl⟩ := ExprType.andV_eq_ok h
      obtain ⟨hpx, hpy⟩ := safe_append hp
      have hx := ihx hx hpx
      have hy := ihy hy hpy
      rw [hbx] at hx
      exact hx.andV hby hy
  | andB _ _ ihx ihy =>
    cases ht with
    | andB hx hy h =>
      obtain ⟨hbx, hby, rfl⟩ := ExprType.andB_eq_ok h
      obtain ⟨hpx, hpy⟩ := safe_append hp
      have hx := ihx hx hpx
      have hy := ihy hy hpy
      rw [hbx] at hx
      rw [hby] at hy
      exact hx.andB hy
  | orB _ _ ihx ihz =>
    cases ht with
    | orB hx hz h =>
      obtain ⟨⟨hbx, -⟩, ⟨hbz, -⟩, rfl⟩ := ExprType.orB_eq_ok h
      obtain ⟨hpx, hpz⟩ := safe_append hp
      have hx := ihx hx hpx
      have hz := ihz hz hpz
      rw [hbx] at hx
      rw [hbz] at hz
      exact hx.orB hz
  | orCFirst _ ihx =>
    cases ht with
    | orC hx hz h =>
      obtain ⟨⟨hbx, -, hux⟩, -, rfl⟩ := ExprType.orC_eq_ok h
      have hx := ihx hx (safe_append hp).1
      rw [hbx, hux] at hx
      simp only [Fragment.script, List.append_assoc, List.singleton_append]
      exact hx.orCFirst (skips_script _)
  | orCSecond _ _ ihx ihz =>
    cases ht with
    | orC hx hz h =>
      obtain ⟨⟨hbx, -, hux⟩, hbz, rfl⟩ := ExprType.orC_eq_ok h
      obtain ⟨hpx, hpz⟩ := safe_append hp
      have hx := ihx hx hpx
      have hz := ihz hz hpz
      rw [hbx, hux] at hx
      rw [hbz] at hz
      simp only [Fragment.script, List.append_assoc, List.singleton_append]
      exact hx.orCSecond hz
  | orDFirst _ ihx =>
    cases ht with
    | orD hx hz h =>
      obtain ⟨⟨hbx, -, hux⟩, -, rfl⟩ := ExprType.orD_eq_ok h
      have hx := ihx hx (safe_append hp).1
      rw [hbx, hux] at hx
      simp only [Fragment.script, List.append_assoc, List.cons_append, List.nil_append]
      exact hx.orDFirst (skips_script _)
  | orDSecond _ _ ihx ihz =>
    cases ht with
    | orD hx hz h =>
      obtain ⟨⟨hbx, -, hux⟩, hbz, rfl⟩ := ExprType.orD_eq_ok h
      obtain ⟨hpx, hpz⟩ := safe_append hp
      have hx := ihx hx hpx
      have hz := ihz hz hpz
      rw [hbx, hux] at hx
      rw [hbz] at hz
      simp only [Fragment.script, List.append_assoc, List.cons_append, List.nil_append]
      exact hx.orDSecond hz
  | orIFirst _ ihx =>
    cases ht with
    | orI hx hz h =>
      obtain ⟨⟨-, hb⟩, rfl⟩ := ExprType.orI_eq_ok h
      have hx := ihx hx (safe_append hp).1
      simp only [Fragment.script, List.append_assoc, List.singleton_append]
      exact (hx.mono fun hu => (Bool.and_eq_true_iff.mp hu).1).orIFirst hb (skips_script _)
  | orISecond _ ihz =>
    cases ht with
    | orI hx hz h =>
      obtain ⟨⟨he, hb⟩, rfl⟩ := ExprType.orI_eq_ok h
      have hz := ihz hz (safe_append hp).2
      rw [← he] at hz
      simp only [Fragment.script, List.append_assoc, List.singleton_append]
      exact Behaves.orISecond hb (skips_script _)
        (hz.mono fun hu => (Bool.and_eq_true_iff.mp hu).2)
  | andOrThen _ _ ihx ihy =>
    cases ht with
    | andOr hx hy hz h =>
      obtain ⟨⟨hbx, -, hux⟩, ⟨-, hb⟩, rfl⟩ := ExprType.andOr_eq_ok h
      obtain ⟨hpx, hpy⟩ := safe_append (safe_append hp).1
      have hx := ihx hx hpx
      have hy := ihy hy hpy
      rw [hbx, hux] at hx
      simp only [Fragment.script, List.append_assoc, List.singleton_append]
      exact hx.andOrThen hb (hy.mono fun hu => (Bool.and_eq_true_iff.mp hu).1) (skips_script _)
  | andOrElse _ _ ihx ihz =>
    cases ht with
    | andOr hx hy hz h =>
      obtain ⟨⟨hbx, -, hux⟩, ⟨he, hb⟩, rfl⟩ := ExprType.andOr_eq_ok h
      obtain ⟨hpxy, hpz⟩ := safe_append hp
      have hx := ihx hx (safe_append hpxy).1
      have hz := ihz hz hpz
      rw [hbx, hux] at hx
      rw [← he] at hz
      simp only [Fragment.script, List.append_assoc, List.singleton_append]
      exact Behaves.andOrElse hb hx (skips_script _)
        (hz.mono fun hu => (Bool.and_eq_true_iff.mp hu).2)
  | @thresh k parts b _ hc ih =>
    -- the first branch leaves the sum that the others add to
    obtain ⟨ts, hts, h⟩ := ht.branches
    obtain ⟨hk, ⟨first, others, rfl, hf, ho⟩, rfl⟩ := ExprType.thresh_eq_ok h
    have hb : ∀ p ∈ parts, ∀ t, p.fragment.HasType t →
        Behaves c t.base t.u p.fragment.script p.satisfied p.witness := fun p hm t ht =>
      ih p hm ht fun r hr => hp r (Fragment.mem_predicatesAll.mpr ⟨_, List.mem_map_of_mem hm, hr⟩)
    rw [List.forall₂_map_left_iff] at hts
    cases forall₂_of_mem hts hb with
    | @cons p _ parts _ hx hxs =>
      refine behaves_thresh hk.1 ?_ ?_ hc
      · rwa [hf.1, hf.2.2] at hx
      · intro q hq
        obtain ⟨t, ht, hq⟩ := exists_of_forall₂ hxs hq
        rwa [(ho t ht).1, (ho t ht).2.2] at hq
  | wrapD hw ih =>
    cases ht with
    | wrap hx h =>
      -- the item that opens the branch is all there is, since the body consumes nothing
      obtain ⟨ha, rfl⟩ := ExprType.wrap_eq_ok h
      obtain ⟨hb, hz⟩ : _ = BaseType.V ∧ _ = true := by simpa [ExprType.admits] using ha
      have hx' := ih hx hp
      rw [hb] at hx'
      exact Behaves.wrapD (List.length_eq_zero_iff.mp ((hw.sized hx).zero hz)) hx'
  | wrapNot x hl =>
    cases ht with
    | wrap hx h =>
      obtain ⟨-, rfl⟩ := ExprType.wrap_eq_ok h
      rcases hl with rfl | rfl
      · exact Behaves.wrapD_not (skips_script x)
      · exact Behaves.wrapJ_not (skips_script x)
  | wrap hd hn hw ih =>
    cases ht with
    | wrap hx h =>
      exact Behaves.wrapped h hd hn (hw.sized hx)
        (fun hb hx' => hw.hasTop hm.substantial hb hx hx') (ih hx hp)

/-- What satisfies a fragment of type `B` opens its script. -/
theorem satisfaction_sound {f : Fragment} {t : ExprType} {w : Witness} (ht : f.type? = .ok t)
    (hb : t.base = .B) (hr : ∀ r ∈ f.predicates, r.InRange)
    (hz : sha256 (List.replicate 32 0) ∉ f.images) (hm : m.Honest c)
    (hw : (f.satisfy m).witness = some w) :
    ∃ top, isTrue top = true ∧ c.run f.script (Machine.start w) = some ⟨[top], [], []⟩ := by
  have hp : ∀ r ∈ f.predicates, r.Safe := by
    intro r hr'
    refine ⟨hr r hr', ?_⟩
    rintro rfl
    exact hz (Fragment.mem_images.mpr hr')
  have h := (HasWitness.of_satisfy hw).behaves hm (Fragment.HasType.of_type? ht) hp
  rw [hb] at h
  obtain ⟨top, hv, h⟩ := h
  refine ⟨top, hv.isTrue_eq, ?_⟩
  have hr := h [] [] [] rfl
  rwa [List.append_nil] at hr

namespace DayLock

/-- A key alone, or after a day two of: a second key, a third key, a preimage. -/
def fragment : Fragment :=
  .orD (.wrap .c (.key (List.replicate 32 1))) (.andV (.wrap .v (.older 144)) (.thresh 2 [
    .wrap .c (.key (List.replicate 32 2)),
    .wrap .s (.wrap .c (.key (List.replicate 32 3))),
    .wrap .a (.image (sha256 (List.replicate 32 4)))]))

/-- The second key can sign, and the preimage is known. -/
def material : Material where
  sign key := if key = List.replicate 32 2 then some [5] else none
  preimage h := if h = sha256 (List.replicate 32 4) then some (List.replicate 32 4) else none
  older n := decide (n = 144)
  after _ := false

def context : ScriptContext where
  version := 2
  lockTime := 0
  sequence := 144
  verifies key signature := key == List.replicate 32 2 && signature == [5]

theorem honest : material.Honest context where
  sign {k s} h := by
    obtain ⟨rfl, hs⟩ := Option.ite_none_right_eq_some.mp h
    cases hs
    decide
  preimage {h p} hp := by
    obtain ⟨rfl, hs⟩ := Option.ite_none_right_eq_some.mp hp
    cases hs
    exact ⟨by simp, rfl⟩
  older {n} h := by
    obtain rfl := of_decide_eq_true h
    decide
  after h := by cases h

theorem zeros_elsewhere : sha256 (List.replicate 32 0) ∉ fragment.images := by
  have h : fragment.images = [sha256 (List.replicate 32 4)] := rfl
  rw [h, sha256_eq_by, sha256_eq_by]
  decide +kernel

theorem satisfied :
    (fragment.satisfy material).witness = some [List.replicate 32 4, [], [5], []] := by
  simp only [fragment, material, sha256_eq_by]
  decide +kernel

theorem opens : ∃ top, isTrue top = true ∧
    context.run fragment.script (Machine.start [List.replicate 32 4, [], [5], []]) =
      some ⟨[top], [], []⟩ :=
  satisfaction_sound (t := { base := .B, u := true }) (by decide) rfl (by decide)
    zeros_elsewhere honest satisfied

end DayLock

end Taproot.Miniscript
