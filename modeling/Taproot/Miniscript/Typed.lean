import Taproot.Miniscript.Fragment

/-! # Well-typed fragments

A fragment together with its type. The constructors type one fragment from its typed arguments, so
that no argument is typed again.
-/
namespace Taproot.Miniscript

structure Typed where
  fragment : Fragment
  type : ExprType
  typed : fragment.type? = .ok type

namespace Typed

/-- The result of typing a fragment, with the fragment. -/
def ofResult (f : Fragment) : (r : Except TypeError ExprType) → f.type? = r → Except TypeError Typed
  | .ok t, h => .ok ⟨f, t, h⟩
  | .error e, _ => .error e

theorem ofResult_eq_ok {f : Fragment} {r : Except TypeError ExprType} {h : f.type? = r} {x : Typed} :
    ofResult f r h = .ok x ↔ x.fragment = f := by
  obtain ⟨g, t, ht⟩ := x
  cases r with
  | ok s =>
    simp only [ofResult, Except.ok.injEq, mk.injEq]
    constructor
    · exact fun hx => hx.1.symm
    · rintro rfl
      exact ⟨rfl, Except.ok.inj (h.symm.trans ht)⟩
  | error e =>
    simp only [ofResult, reduceCtorEq, false_iff]
    rintro rfl
    simp [h] at ht

def just (value : Bool) : Typed := ⟨.just value, .just value, by simp [Fragment.type?]⟩

instance : Inhabited Typed := ⟨just false⟩

def key (k : Bytes) : Typed := ⟨.key k, .key, by simp [Fragment.type?]⟩

def image (h : Bytes) : Typed := ⟨.image h, .image, by simp [Fragment.type?]⟩

def after (n : Int) : Typed := ⟨.after n, .timelock, by simp [Fragment.type?]⟩

def older (n : Int) : Typed := ⟨.older n, .timelock, by simp [Fragment.type?]⟩

def multi (k : Int) (keys : List Bytes) : Except TypeError Typed :=
  ofResult (.multi k keys) (ExprType.multi k keys) (by simp [Fragment.type?])

def andV (x y : Typed) : Except TypeError Typed :=
  ofResult (.andV x.fragment y.fragment) (ExprType.andV x.type y.type)
    (by simp [Fragment.type?, x.typed, y.typed, bind, Except.bind])

def andB (x y : Typed) : Except TypeError Typed :=
  ofResult (.andB x.fragment y.fragment) (ExprType.andB x.type y.type)
    (by simp [Fragment.type?, x.typed, y.typed, bind, Except.bind])

def orB (x z : Typed) : Except TypeError Typed :=
  ofResult (.orB x.fragment z.fragment) (ExprType.orB x.type z.type)
    (by simp [Fragment.type?, x.typed, z.typed, bind, Except.bind])

def orC (x z : Typed) : Except TypeError Typed :=
  ofResult (.orC x.fragment z.fragment) (ExprType.orC x.type z.type)
    (by simp [Fragment.type?, x.typed, z.typed, bind, Except.bind])

def orD (x z : Typed) : Except TypeError Typed :=
  ofResult (.orD x.fragment z.fragment) (ExprType.orD x.type z.type)
    (by simp [Fragment.type?, x.typed, z.typed, bind, Except.bind])

def orI (x z : Typed) : Except TypeError Typed :=
  ofResult (.orI x.fragment z.fragment) (ExprType.orI x.type z.type)
    (by simp [Fragment.type?, x.typed, z.typed, bind, Except.bind])

def andOr (x y z : Typed) : Except TypeError Typed :=
  ofResult (.andOr x.fragment y.fragment z.fragment) (ExprType.andOr x.type y.type z.type)
    (by simp [Fragment.type?, x.typed, y.typed, z.typed, bind, Except.bind])

theorem types?_map (xs : List Typed) :
    Fragment.types? (xs.map Typed.fragment) = .ok (xs.map Typed.type) := by
  induction xs with
  | nil => simp [Fragment.types?]
  | cons x xs ih =>
    simp [Fragment.types?, x.typed, ih, bind, Except.bind, pure, Except.pure]

def thresh (k : Int) (branches : List Typed) : Except TypeError Typed :=
  ofResult (.thresh k (branches.map Typed.fragment)) (ExprType.thresh k (branches.map Typed.type))
    (by simp [Fragment.type?, types?_map, bind, Except.bind])

def wrap (w : Wrapper) (x : Typed) : Except TypeError Typed :=
  ofResult (.wrap w x.fragment) (ExprType.wrap w x.type)
    (by simp [Fragment.type?, x.typed, bind, Except.bind])

/-- Wraps by the name of a wrapper. -/
def wrapNamed (name : String) (x : Typed) : Except TypeError Typed :=
  match name.toList with
  | [c] =>
    match Wrapper.ofLetter? c with
    | some w => wrap w x
    | none => .error (.unknownWrapper name)
  | _ => .error (.unknownWrapper name)

/-- Wraps where the wrapper is known to fit. -/
def wrapFitting (w : Wrapper) (x : Typed) (h : ExprType.admits w x.type = true) : Typed :=
  ⟨.wrap w x.fragment, .wrapped w x.type,
    by simp [Fragment.type?, x.typed, ExprType.wrap, h, bind, Except.bind]⟩

/-- A checked public key. -/
def checkedKey (k : Bytes) : Typed := wrapFitting .c (key k) rfl

/-- Makes a `B` expression a `V` one. -/
def asVerify (x : Typed) : Typed :=
  if h : x.type.base = .B then wrapFitting .v x (by simp [ExprType.admits, h]) else x

/-- Makes a `B` expression a `W` one, in the shorter way where it takes one item. -/
def asSummand (x : Typed) : Typed :=
  if h : x.type.base = .B then
    if ho : x.type.o = true then wrapFitting .s x (by simp [ExprType.admits, h, ho])
    else wrapFitting .a x (by simp [ExprType.admits, h])
  else x

end Typed
end Taproot.Miniscript
