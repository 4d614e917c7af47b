import Tcpeen.ServiceSetup

/-! A thread that makes its calls on rings while the other threads stand still. -/
namespace Tcpeen

open SplitOperation QueueSpsc

section Calls

variable {T : Type} [DecidableEq T] {Pc : T → Type} {Q : Type} [DecidableEq Q] {V S Act : Type}
  {m : Machine T Pc Q (Op V) (Res V) S Act} {s : Split T Pc Q (Queue V) (Loc V) S} {t : T}

/-- A call that goes to its end. -/
theorem call_runs {q : Q} {op : Op V} {fuel : Nat} {mem : Queue V} {res : Res V}
    (asked : m.request t (s.pcs t) = some (q, op))
    (ran : callAlone op (s.mem q) fuel (s.loc t) = (mem, some res)) :
    ∃ s', Transition.Reachable (splitStep (object Q V) m) (fun _ label => label = .tick t) s s' ∧
      s'.pcs t = (m.resume t (s.pcs t) res s.shared).1 ∧
      s'.shared = (m.resume t (s.pcs t) res s.shared).2 ∧
      s'.mem = Function.update s.mem q mem ∧ s'.loc t = .entry := by
  induction fuel generalizing s with
  | zero => simp [callAlone] at ran
  | succ fuel ih =>
    simp only [callAlone] at ran
    cases ticked : tick op (s.loc t) (s.mem q) with
    | mk mem' progress =>
    have ticked' : (object Q V).tick q op (s.loc t) (s.mem q) = (mem', progress) := ticked
    rw [ticked] at ran
    cases progress with
    | running loc =>
      have moved : splitStep (object Q V) m s (.tick t) =
          some { s with mem := Function.update s.mem q mem', loc := Function.update s.loc t loc } := by
        simp only [splitStep,asked,ticked']
      obtain ⟨s',run,pc,shared,rings,entry⟩ := ih
        (s := { s with mem := Function.update s.mem q mem', loc := Function.update s.loc t loc })
        asked (by simpa using ran)
      rw [Function.update_idem] at rings
      exact ⟨s',.trans (.step .start rfl moved) run,pc,shared,rings,entry⟩
    | returned res' =>
      obtain ⟨rfl,same⟩ := Prod.mk.inj ran
      obtain rfl := Option.some.inj same
      have moved : splitStep (object Q V) m s (.tick t) = some
          { pcs := Function.update s.pcs t (m.resume t (s.pcs t) res' s.shared).1
            shared := (m.resume t (s.pcs t) res' s.shared).2
            mem := Function.update s.mem q mem', loc := Function.update s.loc t .entry } := by
        simp only [splitStep,asked,ticked']
        rfl
      exact ⟨_,.step .start rfl moved,by simp,rfl,rfl,by simp⟩

/-- Outside its calls a thread is at no place inside one. -/
theorem outside_entry {guard : Split T Pc Q (Queue V) (Loc V) S → SplitLabel T Act → Prop}
    {start : Split T Pc Q (Queue V) (Loc V) S}
    (initial : ∀ t, m.request t (start.pcs t) = none → start.loc t = .entry)
    (reach : Transition.Reachable (splitStep (object Q V) m) guard start s)
    (t : T) (quiet : m.request t (s.pcs t) = none) : s.loc t = .entry := by
  revert t
  refine reach.invariant (fun s => ∀ t, m.request t (s.pcs t) = none → s.loc t = .entry) initial ?_
  intro s label s' before _ taken t quiet
  cases label with
  | act b =>
    obtain ⟨free,r,-,rfl⟩ := splitStep_act_cases taken
    by_cases same : t = m.actor b
    · subst same
      exact before _ free
    · exact before t (by simpa [Function.update_of_ne same] using quiet)
  | tick u =>
    obtain ⟨q,op,mem,asked,⟨loc,ticked,rfl⟩ | ⟨res,ticked,rfl⟩⟩ := splitStep_tick_cases taken
    · by_cases same : t = u
      · subst same
        exact absurd quiet (by rw [asked]; simp)
      · exact (Function.update_of_ne same ..).trans (before t quiet)
    · by_cases same : t = u
      · subst same
        exact Function.update_self ..
      · exact (Function.update_of_ne same ..).trans (before t (by simpa [Function.update_of_ne same] using quiet))

end Calls

section Push

variable {V : Type} {q : Queue V}

/-- `tn_queue_spsc_push` alone. -/
def tnQueueSpscPush (q : Queue V) (value : V) : Queue V := (callAlone (.push value) q 4 .entry).1

def Full (q : Queue V) : Prop := q.head - q.tail = q.capacity

instance (q : Queue V) : Decidable (Full q) := inferInstanceAs (Decidable (_ = _))

theorem push_full (full : Full q) (value : V) : callAlone (.push value) q 4 .entry = (q, some .full) := by
  have refused : q.head - q.tail = q.capacity := full
  simp [callAlone,tick,refused]

theorem push_room (room : ¬ Full q) (value : V) :
    callAlone (.push value) q 4 .entry =
      ({ q with buffer := Function.update q.buffer (q.slot q.head) value, head := q.head + 1 },
        some (.success [])) := by
  have accepted : q.head - q.tail ≠ q.capacity := room
  simp [callAlone,tick,accepted]

theorem push_answer (q : Queue V) (value : V) :
    ∃ res, callAlone (.push value) q 4 .entry = (tnQueueSpscPush q value, some res) := by
  by_cases full : Full q
  · rw [tnQueueSpscPush,push_full full]
    exact ⟨.full,rfl⟩
  · rw [tnQueueSpscPush,push_room full]
    exact ⟨.success [],rfl⟩

/-- The places that are left, as the index runs. -/
def left (q : Queue V) : Nat := (q.capacity - (q.head - q.tail)).toNat

theorem left_zero_iff : left q = 0 ↔ Full q := by
  rw [left,Full]
  constructor
  · intro zero
    have same : q.capacity - (q.head - q.tail) = 0 := BitVec.eq_of_toNat_eq zero
    exact (sub_eq_zero.mp same).symm
  · intro full
    rw [full]
    simp

theorem left_push (room : ¬ Full q) (value : V) : left (tnQueueSpscPush q value) = left q - 1 := by
  have nonzero : q.capacity - (q.head - q.tail) ≠ 0 := by
    intro zero
    exact room (left_zero_iff.mp (by rw [left,zero]; rfl))
  rw [left,left,← toNat_sub_one nonzero,tnQueueSpscPush,push_room room]
  congr 1
  change q.capacity - (q.head + 1 - q.tail) = q.capacity - (q.head - q.tail) - 1
  bv_omega

/-- Pushes move the head until nothing is left, and then no further. -/
theorem pushes_head (values : List V) :
    (values.foldl tnQueueSpscPush q).head = q.head + BitVec.ofNat 64 (min values.length (left q)) := by
  induction values generalizing q with
  | nil => simp
  | cons value rest ih =>
    rw [List.foldl_cons,ih]
    by_cases full : Full q
    · have same : tnQueueSpscPush q value = q := by rw [tnQueueSpscPush,push_full full]
      rw [same,left_zero_iff.mpr full,Nat.min_zero,Nat.min_zero]
    · have some' : left q ≠ 0 := left_zero_iff.not.mpr full
      have head : (tnQueueSpscPush q value).head = q.head + BitVec.ofNat 64 1 := by
        rw [tnQueueSpscPush,push_room full]
        rfl
      have count : min (rest.length + 1) (left q) = 1 + min rest.length (left q - 1) := by omega
      rw [left_push full,head,List.length_cons,count,BitVec.ofNat_add,BitVec.add_assoc]

/-- Pushes leave a ring as it is only where it is full. -/
theorem pushes_same_iff (values : List V) : values.foldl tnQueueSpscPush q = q ↔ values = [] ∨ Full q := by
  constructor
  · intro same
    have head := pushes_head (q := q) values
    rw [same,left_eq_add] at head
    have few : left q < 2 ^ 64 := (q.capacity - (q.head - q.tail)).isLt
    have zero := congrArg BitVec.toNat head
    rw [BitVec.toNat_ofNat,Nat.mod_eq_of_lt (by omega)] at zero
    by_cases full : Full q
    · exact .inr full
    · have some' : left q ≠ 0 := left_zero_iff.not.mpr full
      have none' : min values.length (left q) = 0 := zero
      exact .inl (List.eq_nil_of_length_eq_zero (by omega))
  · rintro (rfl | full)
    · rfl
    · induction values with
      | nil => rfl
      | cons value rest ih =>
        have same : tnQueueSpscPush q value = q := by rw [tnQueueSpscPush,push_full full]
        rw [List.foldl_cons,same,ih]

end Push

end Tcpeen
