import Mathlib.Data.Sum.Basic
import Tcpeen.Library.SplitOperation

/-! Two machines run by the same threads. A thread that has a call open goes on with it;
otherwise it may act for either machine, as far as the joint state allows it. Each step of
the joint machine is a step of one half that leaves the other as it is. -/
namespace SplitOperation

variable {T : Type} {Pc₁ Pc₂ : T → Type} {Q₁ Q₂ Op Res S₁ S₂ Act₁ Act₂ Abs Choice : Type}

@[reducible] def joinActor (m₁ : Machine T Pc₁ Q₁ Op Res S₁ Act₁) (m₂ : Machine T Pc₂ Q₂ Op Res S₂ Act₂) :
    Act₁ ⊕ Act₂ → T
  | .inl a => m₁.actor a
  | .inr a => m₂.actor a

def join (m₁ : Machine T Pc₁ Q₁ Op Res S₁ Act₁) (m₂ : Machine T Pc₂ Q₂ Op Res S₂ Act₂)
    (allowed : (a : Act₁ ⊕ Act₂) →
      Pc₁ (joinActor m₁ m₂ a) × Pc₂ (joinActor m₁ m₂ a) → S₁ × S₂ → Bool) :
    Machine T (fun t => Pc₁ t × Pc₂ t) (Q₁ ⊕ Q₂) Op Res (S₁ × S₂) (Act₁ ⊕ Act₂) where
  request t pc :=
    match m₁.request t pc.1 with
    | some (q, op) => some (.inl q, op)
    | none => (m₂.request t pc.2).map fun (q, op) => (.inr q, op)
  resume t pc res s :=
    match m₁.request t pc.1 with
    | some _ => (((m₁.resume t pc.1 res s.1).1, pc.2), ((m₁.resume t pc.1 res s.1).2, s.2))
    | none => ((pc.1, (m₂.resume t pc.2 res s.2).1), (s.1, (m₂.resume t pc.2 res s.2).2))
  actor := joinActor m₁ m₂
  act
    | .inl a, pc, s =>
      if allowed (.inl a) pc s then (m₁.act a pc.1 s.1).map fun r => ((r.1, pc.2), (r.2, s.2)) else none
    | .inr a, pc, s =>
      if allowed (.inr a) pc s then (m₂.act a pc.2 s.2).map fun r => ((pc.1, r.1), (s.1, r.2)) else none

namespace Atomic

variable (a : Atomic T (fun t => Pc₁ t × Pc₂ t) (Q₁ ⊕ Q₂) Abs (S₁ × S₂))

def left : Atomic T Pc₁ Q₁ Abs S₁ := ⟨fun t => (a.pcs t).1, a.shared.1, fun q => a.abs (.inl q)⟩

def right : Atomic T Pc₂ Q₂ Abs S₂ := ⟨fun t => (a.pcs t).2, a.shared.2, fun q => a.abs (.inr q)⟩

end Atomic

section

variable {m₁ : Machine T Pc₁ Q₁ Op Res S₁ Act₁} {m₂ : Machine T Pc₂ Q₂ Op Res S₂ Act₂}
variable {allowed : (a : Act₁ ⊕ Act₂) →
  Pc₁ (joinActor m₁ m₂ a) × Pc₂ (joinActor m₁ m₂ a) → S₁ × S₂ → Bool}

/-- A call of the joint machine is a call of one half; the second half only calls while
the first does not. -/
theorem join_request_cases {t : T} {pc : Pc₁ t × Pc₂ t} {q : Q₁ ⊕ Q₂} {op : Op}
    (asked : (join m₁ m₂ allowed).request t pc = some (q, op)) :
    (∃ q₁, q = .inl q₁ ∧ m₁.request t pc.1 = some (q₁, op)) ∨
      (∃ q₂, q = .inr q₂ ∧ m₁.request t pc.1 = none ∧ m₂.request t pc.2 = some (q₂, op)) := by
  simp only [join] at asked
  split at asked
  · next q₁ op₁ first =>
    obtain ⟨rfl,rfl⟩ := Prod.mk.inj (Option.some.inj asked)
    exact .inl ⟨q₁,rfl,first⟩
  · next quiet =>
    obtain ⟨⟨q₂,op₂⟩,second,same⟩ := Option.map_eq_some_iff.mp asked
    obtain ⟨rfl,rfl⟩ := Prod.mk.inj same
    exact .inr ⟨q₂,rfl,quiet,second⟩

theorem join_request_none {t : T} {pc : Pc₁ t × Pc₂ t}
    (quiet : (join m₁ m₂ allowed).request t pc = none) :
    m₁.request t pc.1 = none ∧ m₂.request t pc.2 = none := by
  simp only [join] at quiet
  split at quiet
  · contradiction
  · next first => exact ⟨first,Option.map_eq_none_iff.mp quiet⟩

theorem join_resume_left {t : T} {pc : Pc₁ t × Pc₂ t} {call : Q₁ × Op} (asked : m₁.request t pc.1 = some call)
    (res : Res) (s : S₁ × S₂) : (join m₁ m₂ allowed).resume t pc res s =
      (((m₁.resume t pc.1 res s.1).1, pc.2), ((m₁.resume t pc.1 res s.1).2, s.2)) := by
  simp only [join,asked]

theorem join_resume_right {t : T} {pc : Pc₁ t × Pc₂ t} (quiet : m₁.request t pc.1 = none)
    (res : Res) (s : S₁ × S₂) : (join m₁ m₂ allowed).resume t pc res s =
      ((pc.1, (m₂.resume t pc.2 res s.2).1), (s.1, (m₂.resume t pc.2 res s.2).2)) := by
  simp only [join,quiet]

theorem join_act_left {b : Act₁} {pc : Pc₁ (m₁.actor b) × Pc₂ (m₁.actor b)} {s : S₁ × S₂}
    {r : (Pc₁ (m₁.actor b) × Pc₂ (m₁.actor b)) × (S₁ × S₂)}
    (done : (join m₁ m₂ allowed).act (.inl b) pc s = some r) :
    allowed (.inl b) pc s = true ∧ ∃ r₁, m₁.act b pc.1 s.1 = some r₁ ∧ r = ((r₁.1, pc.2), (r₁.2, s.2)) := by
  simp only [join] at done
  split at done
  case isFalse => contradiction
  next permitted =>
  obtain ⟨r₁,ran,rfl⟩ := Option.map_eq_some_iff.mp done
  exact ⟨permitted,r₁,ran,rfl⟩

theorem join_act_right {b : Act₂} {pc : Pc₁ (m₂.actor b) × Pc₂ (m₂.actor b)} {s : S₁ × S₂}
    {r : (Pc₁ (m₂.actor b) × Pc₂ (m₂.actor b)) × (S₁ × S₂)}
    (done : (join m₁ m₂ allowed).act (.inr b) pc s = some r) :
    allowed (.inr b) pc s = true ∧ ∃ r₂, m₂.act b pc.2 s.2 = some r₂ ∧ r = ((pc.1, r₂.1), (s.1, r₂.2)) := by
  simp only [join] at done
  split at done
  case isFalse => contradiction
  next permitted =>
  obtain ⟨r₂,ran,rfl⟩ := Option.map_eq_some_iff.mp done
  exact ⟨permitted,r₂,ran,rfl⟩

variable [DecidableEq T]
variable {spec : Q₁ ⊕ Q₂ → Op → Abs → Choice → Option (Abs × Res)}
variable {a a' : Atomic T (fun t => Pc₁ t × Pc₂ t) (Q₁ ⊕ Q₂) Abs (S₁ × S₂)}

theorem update_fst (pcs : (t : T) → Pc₁ t × Pc₂ t) (t : T) (pc : Pc₁ t × Pc₂ t) :
    (fun t' => (Function.update pcs t pc t').1) = Function.update (fun t' => (pcs t').1) t pc.1 := by
  funext t'
  rcases eq_or_ne t' t with rfl | different
  · simp
  · simp [Function.update_of_ne different]

theorem update_snd (pcs : (t : T) → Pc₁ t × Pc₂ t) (t : T) (pc : Pc₁ t × Pc₂ t) :
    (fun t' => (Function.update pcs t pc t').2) = Function.update (fun t' => (pcs t').2) t pc.2 := by
  funext t'
  rcases eq_or_ne t' t with rfl | different
  · simp
  · simp [Function.update_of_ne different]

/-- What the halves of a state become when one thread moves in its first half. -/
theorem Atomic.left_step (t : T) (pc : Pc₁ t) (s : S₁) (abs : Q₁ ⊕ Q₂ → Abs)
    (same : ∀ q, abs (.inr q) = a.abs (.inr q)) :
    (Atomic.mk (Function.update a.pcs t (pc, (a.pcs t).2)) (s, a.shared.2) abs).left =
        ⟨Function.update a.left.pcs t pc,s,fun q => abs (.inl q)⟩ ∧
      (Atomic.mk (Function.update a.pcs t (pc, (a.pcs t).2)) (s, a.shared.2) abs).right = a.right := by
  constructor
  · simp only [Atomic.left,update_fst]
  · simp only [Atomic.right,update_snd,Function.update_eq_self,same]

theorem Atomic.right_step (t : T) (pc : Pc₂ t) (s : S₂) (abs : Q₁ ⊕ Q₂ → Abs)
    (same : ∀ q, abs (.inl q) = a.abs (.inl q)) :
    (Atomic.mk (Function.update a.pcs t ((a.pcs t).1, pc)) (a.shared.1, s) abs).right =
        ⟨Function.update a.right.pcs t pc,s,fun q => abs (.inr q)⟩ ∧
      (Atomic.mk (Function.update a.pcs t ((a.pcs t).1, pc)) (a.shared.1, s) abs).left = a.left := by
  constructor
  · simp only [Atomic.right,update_snd]
  · simp only [Atomic.left,update_fst,Function.update_eq_self,same]

variable [DecidableEq Q₁] [DecidableEq Q₂]

/-- A step of the first half: the second half stays. -/
def LeftStep (spec : Q₁ ⊕ Q₂ → Op → Abs → Choice → Option (Abs × Res)) (m₁ : Machine T Pc₁ Q₁ Op Res S₁ Act₁)
    (a a' : Atomic T (fun t => Pc₁ t × Pc₂ t) (Q₁ ⊕ Q₂) Abs (S₁ × S₂))
    (label : AtomicLabel T Act₁ Choice Res) : Prop :=
  atomicStep (fun q => spec (.inl q)) m₁ a.left label = some a'.left ∧ a'.right = a.right

def RightStep (spec : Q₁ ⊕ Q₂ → Op → Abs → Choice → Option (Abs × Res)) (m₂ : Machine T Pc₂ Q₂ Op Res S₂ Act₂)
    (a a' : Atomic T (fun t => Pc₁ t × Pc₂ t) (Q₁ ⊕ Q₂) Abs (S₁ × S₂))
    (label : AtomicLabel T Act₂ Choice Res) : Prop :=
  atomicStep (fun q => spec (.inr q)) m₂ a.right label = some a'.right ∧ a'.left = a.left

theorem join_act_cases {b : Act₁ ⊕ Act₂}
    (taken : atomicStep spec (join m₁ m₂ allowed) a (.act b) = some a') :
    allowed b (a.pcs _) a.shared = true ∧
      ((∃ b₁, b = .inl b₁ ∧ LeftStep spec m₁ a a' (.act b₁)) ∨
        (∃ b₂, b = .inr b₂ ∧ RightStep spec m₂ a a' (.act b₂))) := by
  obtain ⟨quiet,r,done,rfl⟩ := atomicStep_act_cases taken
  obtain ⟨quiet₁,quiet₂⟩ := join_request_none quiet
  cases b with
  | inl b₁ =>
    obtain ⟨permitted,r,ran,rfl⟩ := join_act_left done
    refine ⟨permitted,.inl ⟨b₁,rfl,?_⟩⟩
    obtain ⟨left,right⟩ := Atomic.left_step (a := a) (m₁.actor b₁) r.1 r.2 a.abs fun _ => rfl
    refine ⟨Eq.trans ?_ (congrArg some left.symm),right⟩
    have quiet' : m₁.request _ (a.left.pcs (m₁.actor b₁)) = none := quiet₁
    have done' : m₁.act b₁ (a.left.pcs (m₁.actor b₁)) a.left.shared = some r := ran
    simp only [atomicStep,quiet',done']
    rfl
  | inr b₂ =>
    obtain ⟨permitted,r,ran,rfl⟩ := join_act_right done
    refine ⟨permitted,.inr ⟨b₂,rfl,?_⟩⟩
    obtain ⟨right,left⟩ := Atomic.right_step (a := a) (m₂.actor b₂) r.1 r.2 a.abs fun _ => rfl
    refine ⟨Eq.trans ?_ (congrArg some right.symm),left⟩
    have quiet' : m₂.request _ (a.right.pcs (m₂.actor b₂)) = none := quiet₂
    have done' : m₂.act b₂ (a.right.pcs (m₂.actor b₂)) a.right.shared = some r := ran
    simp only [atomicStep,quiet',done']
    rfl

/-- An operation that the first half has asked for. -/
theorem join_op_left {t : T} {choice : Choice} {call : Q₁ × Op} (first : m₁.request t (a.pcs t).1 = some call)
    (taken : atomicStep spec (join m₁ m₂ allowed) a (.op t choice) = some a') :
    LeftStep spec m₁ a a' (.op t choice) := by
  obtain ⟨q,op,abs,res,asked,specified,rfl⟩ := atomicStep_op_cases taken
  rcases join_request_cases asked with ⟨q₁,rfl,asked₁⟩ | ⟨q₂,rfl,quiet,-⟩
  · simp only [join_resume_left asked₁]
    obtain ⟨left,right⟩ := Atomic.left_step (a := a) t (m₁.resume t (a.pcs t).1 res a.shared.1).1
      (m₁.resume t (a.pcs t).1 res a.shared.1).2 (Function.update a.abs (.inl q₁) abs) fun _ => rfl
    refine ⟨?_,right⟩
    rw [left]
    have asked' : m₁.request t (a.left.pcs t) = some (q₁,op) := asked₁
    have specified' : spec (.inl q₁) op (a.left.abs q₁) choice = some (abs,res) := specified
    simp only [atomicStep,asked',specified']
    have updated := Function.update_comp_eq_of_injective a.abs Sum.inl_injective q₁ abs
    exact congrArg some (congrArg _ updated.symm)
  · rw [first] at quiet
    cases quiet

/-- An operation that the second half has asked for. -/
theorem join_op_right {t : T} {choice : Choice} (first : m₁.request t (a.pcs t).1 = none)
    (taken : atomicStep spec (join m₁ m₂ allowed) a (.op t choice) = some a') :
    RightStep spec m₂ a a' (.op t choice) := by
  obtain ⟨q,op,abs,res,asked,specified,rfl⟩ := atomicStep_op_cases taken
  rcases join_request_cases asked with ⟨q₁,rfl,asked₁⟩ | ⟨q₂,rfl,quiet,asked₂⟩
  · rw [first] at asked₁
    cases asked₁
  · simp only [join_resume_right quiet]
    obtain ⟨right,left⟩ := Atomic.right_step (a := a) t (m₂.resume t (a.pcs t).2 res a.shared.2).1
      (m₂.resume t (a.pcs t).2 res a.shared.2).2 (Function.update a.abs (.inr q₂) abs) fun _ => rfl
    refine ⟨?_,left⟩
    rw [right]
    have asked' : m₂.request t (a.right.pcs t) = some (q₂,op) := asked₂
    have specified' : spec (.inr q₂) op (a.right.abs q₂) choice = some (abs,res) := specified
    simp only [atomicStep,asked',specified']
    have updated := Function.update_comp_eq_of_injective a.abs Sum.inr_injective q₂ abs
    exact congrArg some (congrArg _ updated.symm)

theorem join_op_cases {t : T} {choice : Choice}
    (taken : atomicStep spec (join m₁ m₂ allowed) a (.op t choice) = some a') :
    LeftStep spec m₁ a a' (.op t choice) ∨ RightStep spec m₂ a a' (.op t choice) := by
  cases first : m₁.request t (a.pcs t).1 with
  | some call => exact .inl (join_op_left first taken)
  | none => exact .inr (join_op_right first taken)

theorem join_havoc_cases {t : T} {res : Res}
    (taken : atomicStep spec (join m₁ m₂ allowed) a (.havoc t res) = some a') :
    LeftStep spec m₁ a a' (.havoc t res) ∨
      (∃ q op, (join m₁ m₂ allowed).request t (a.pcs t) = some (.inr q, op)) ∧
        RightStep spec m₂ a a' (.havoc t res) := by
  obtain ⟨q,op,asked,rfl⟩ := atomicStep_havoc_cases taken
  rcases join_request_cases asked with ⟨q₁,rfl,asked₁⟩ | ⟨q₂,rfl,quiet,asked₂⟩
  · left
    simp only [join_resume_left asked₁]
    obtain ⟨left,right⟩ := Atomic.left_step (a := a) t (m₁.resume t (a.pcs t).1 res a.shared.1).1
      (m₁.resume t (a.pcs t).1 res a.shared.1).2 a.abs fun _ => rfl
    refine ⟨?_,right⟩
    rw [left]
    have asked' : m₁.request t (a.left.pcs t) = some (q₁,op) := asked₁
    simp only [atomicStep,asked']
    rfl
  · right
    refine ⟨⟨q₂,op,asked⟩,?_⟩
    simp only [join_resume_right quiet]
    obtain ⟨right,left⟩ := Atomic.right_step (a := a) t (m₂.resume t (a.pcs t).2 res a.shared.2).1
      (m₂.resume t (a.pcs t).2 res a.shared.2).2 a.abs fun _ => rfl
    refine ⟨?_,left⟩
    rw [right]
    have asked' : m₂.request t (a.right.pcs t) = some (q₂,op) := asked₂
    simp only [atomicStep,asked']
    rfl

/-- The first half of a joint run is a run of the first machine; what the guard says of its
labels there holds here. -/
theorem left_reachable {guard : Atomic T (fun t => Pc₁ t × Pc₂ t) (Q₁ ⊕ Q₂) Abs (S₁ × S₂) →
      AtomicLabel T (Act₁ ⊕ Act₂) Choice Res → Prop}
    {guard₁ : Atomic T Pc₁ Q₁ Abs S₁ → AtomicLabel T Act₁ Choice Res → Prop}
    {start : Atomic T (fun t => Pc₁ t × Pc₂ t) (Q₁ ⊕ Q₂) Abs (S₁ × S₂)}
    (acts : ∀ a b, guard a (.act (.inl b)) → guard₁ a.left (.act b))
    (ops : ∀ a t choice, guard₁ a (.op t choice))
    (havocs : ∀ a t res, guard a (.havoc t res) → guard₁ a.left (.havoc t res))
    (reach : Transition.Reachable (atomicStep spec (join m₁ m₂ allowed)) guard start a) :
    Transition.Reachable (atomicStep (fun q => spec (.inl q)) m₁) guard₁ start.left a.left := by
  induction reach with
  | start => exact .start
  | @step a _ label _ permitted taken ih =>
    cases label with
    | act b =>
      rcases (join_act_cases taken).2 with ⟨b₁,rfl,step,-⟩ | ⟨b₂,-,-,same⟩
      · exact .step ih (acts a b₁ permitted) step
      · rwa [same]
    | op t choice =>
      rcases join_op_cases taken with ⟨step,-⟩ | ⟨-,same⟩
      · exact .step ih (ops _ _ _) step
      · rwa [same]
    | havoc t res =>
      rcases join_havoc_cases taken with ⟨step,-⟩ | ⟨-,-,same⟩
      · exact .step ih (havocs a t res permitted) step
      · rwa [same]

/-- So is the second; where the guard keeps the calls of the second half exact, so they are there. -/
theorem right_reachable {guard : Atomic T (fun t => Pc₁ t × Pc₂ t) (Q₁ ⊕ Q₂) Abs (S₁ × S₂) →
      AtomicLabel T (Act₁ ⊕ Act₂) Choice Res → Prop}
    {guard₂ : Atomic T Pc₂ Q₂ Abs S₂ → AtomicLabel T Act₂ Choice Res → Prop}
    {start : Atomic T (fun t => Pc₁ t × Pc₂ t) (Q₁ ⊕ Q₂) Abs (S₁ × S₂)}
    (acts : ∀ a b, guard₂ a (.act b)) (ops : ∀ a t choice, guard₂ a (.op t choice))
    (exact' : ∀ a t res q op, guard a (.havoc t res) →
      (join m₁ m₂ allowed).request t (a.pcs t) ≠ some (.inr q, op))
    (reach : Transition.Reachable (atomicStep spec (join m₁ m₂ allowed)) guard start a) :
    Transition.Reachable (atomicStep (fun q => spec (.inr q)) m₂) guard₂ start.right a.right := by
  induction reach with
  | start => exact .start
  | @step a _ label _ permitted taken ih =>
    cases label with
    | act b =>
      rcases (join_act_cases taken).2 with ⟨b₁,-,-,same⟩ | ⟨b₂,-,step,-⟩
      · rwa [same]
      · exact .step ih (acts _ _) step
    | op t choice =>
      rcases join_op_cases taken with ⟨-,same⟩ | ⟨step,-⟩
      · rwa [same]
      · exact .step ih (ops _ _ _) step
    | havoc t res =>
      rcases join_havoc_cases taken with ⟨-,same⟩ | ⟨⟨q,op,asked⟩,-⟩
      · rwa [same]
      · exact absurd asked (exact' a t res q op permitted)

end

end SplitOperation
