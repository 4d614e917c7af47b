import Tcpeen.ReceiveBlocks
import Tcpeen.ReceiveSources
import Tcpeen.ServiceReplies
import Tcpeen.ServiceRoom

/-! Runs with atomic queues in which no channel is given to a second connection and every
send answers a READ event of the connection that its channel has. -/
namespace Tcpeen.Service

open SplitOperation QueueSpsc

def Replying (a : Abstract) : AtomicLabel Thread Act Nat (Res Nat) → Prop
  | .act (.inl .acquire) => a.shared.1.acquired = false
  | .act (.inl .release) => a.shared.1.acquired = true
  | .act (.inl (.connection failure)) => ∀ c, reopened failure a.shared.1 = some c → privOf a.shared.1 c = none
  | .act (.inr (.send sent)) => ∃ h, sent.source = some h ∧ privOf a.shared.1 sent.channel = some h
  | .havoc _ _ => False
  | _ => True

theorem Replying.alternating {a : Abstract} {label : AtomicLabel Thread Act Nat (Res Nat)}
    (replying : Replying a label) : Alternating a label := by
  cases label with
  | act b =>
    rcases b with (b | b)
    · cases b with
      | acquire => exact replying
      | release => exact replying
      | _ => trivial
    · trivial
  | op t choice => trivial
  | havoc t res => exact replying

/-- What is known of every state of such a run. -/
structure Known (cfg : Config) (a : Abstract) : Prop where
  events : Receive.Events cfg (Receive.view a.left)
  sound : Receive.Sound cfg (Receive.view a.left).io a.shared.1
  streams : Receive.Streams (Receive.view a.left)
  blocks : Receive.Blocks cfg (Receive.view a.left)
  recorded : ∃ closes, Receive.Recorded a.shared.1 closes
  sourced : Receive.Sourced cfg a.shared.1
  owned : Send.Owned cfg (Send.view a.right)
  carried : Send.Carried (Send.view a.right)
  tagged : Tagged (privOf a.shared.1) (Send.view a.right)

section Step

variable {cfg : Config} {a a' : Abstract}

/-- A step of the receiving half takes no channel from its connection. -/
theorem left_priv_kept {label : AtomicLabel Thread Receive.Act Nat (Res Nat)} {c h : Nat}
    (taken : Receive.atomic cfg a.left label = some a'.left)
    (fresh : ∀ failure, label = .act (.connection failure) → ∀ c, reopened failure a.shared.1 = some c →
      privOf a.shared.1 c = none)
    (priv : privOf a.shared.1 c = some h) : privOf a'.shared.1 c = some h := by
  rw [← priv]
  refine left_priv taken ?_
  intro failure called opens
  rw [fresh failure called c opens] at priv
  cases priv

theorem left_sourced {label : AtomicLabel Thread Receive.Act Nat (Res Nat)}
    (sourced : Receive.Sourced cfg a.shared.1) (events : Receive.Events cfg (Receive.view a.left))
    (sound : Receive.Sound cfg (Receive.view a.left).io a.shared.1)
    (orderly : Receive.Orderly True a.left label) (taken : Receive.atomic cfg a.left label = some a'.left)
    (fresh : ∀ failure, label = .act (.connection failure) → ∀ c, reopened failure a.shared.1 = some c →
      privOf a.shared.1 c = none) : Receive.Sourced cfg a'.shared.1 := by
  have move := Receive.step_move orderly taken
  exact Receive.Sourced.move (v := Receive.view a.left) sourced events sound move
    fun _ _ priv => left_priv_kept taken fresh priv

/-- The actions of the receiving half are orderly. -/
theorem Replying.orderly {b : Receive.Act} (replying : Replying a (.act (.inl b))) :
    Receive.Orderly True a.left (.act b) := by
  cases b with
  | acquire => exact fun _ => replying
  | release => exact replying
  | _ => trivial

theorem Replying.fresh {b : Receive.Act} (replying : Replying a (.act (.inl b)))
    (failure : Option Receive.ConnectStep) (called : b = .connection failure) (c : Nat)
    (opens : reopened failure a.shared.1 = some c) : privOf a.shared.1 c = none := by
  subst called
  exact replying c opens

theorem step_sourced {label : AtomicLabel Thread Act Nat (Res Nat)} (sourced : Receive.Sourced cfg a.shared.1)
    (events : Receive.Events cfg (Receive.view a.left))
    (sound : Receive.Sound cfg (Receive.view a.left).io a.shared.1) (replying : Replying a label)
    (taken : atomic cfg a label = some a') : Receive.Sourced cfg a'.shared.1 := by
  have kept {l : AtomicLabel Thread Send.Act Nat (Res Nat)}
      (step : RightStep (spec fun _ => cfg.bits) Send.machine a a' l) : Receive.Sourced cfg a'.shared.1 := by
    rw [show a'.shared.1 = a.shared.1 from congrArg Atomic.shared step.2]
    exact sourced
  cases label with
  | act b =>
    obtain ⟨-,⟨b,rfl,step⟩ | ⟨b,rfl,step⟩⟩ := join_act_cases taken
    · exact left_sourced sourced events sound replying.orderly step.1 fun failure called =>
        replying.fresh failure (AtomicLabel.act.inj called)
    · exact kept step
  | op t choice =>
    rcases join_op_cases taken with step | step
    · have orderly : Receive.Orderly True a.left (.op t choice) := trivial
      exact left_sourced sourced events sound orderly step.1 (by simp)
    · exact kept step
  | havoc t res => exact replying.elim

/-- No channel of a reply that waits is free. -/
theorem Replying.answering {label : AtomicLabel Thread Act Nat (Res Nat)}
    (tagged : Tagged (privOf a.shared.1) (Send.view a.right)) (replying : Replying a label) :
    Answering cfg a label := by
  cases label with
  | act b =>
    rcases b with (b | b)
    · cases b with
      | connection failure =>
        rintro _ opens sent member tag rfl
        obtain ⟨h,source⟩ := Option.isSome_iff_exists.mp tag
        have member' : sent ∈ pending (Send.view a.right).main
            (Send.testing (Send.view a.right).io ++ (Send.view a.right).ready.items) (Send.view a.right).s := by
          rcases List.mem_append.mp member with new | old
          · exact List.mem_append_left _ new
          · exact List.mem_append_right _ (List.filterMap_subset _ (List.subset_append_right ..) old)
        have owner := tagged.waiting sent member' h source
        rw [replying _ opens] at owner
        cases owner
      | _ => trivial
    · cases b with
      | send sent =>
        intro h source
        obtain ⟨h',source',priv⟩ := replying
        obtain rfl := Option.some.inj (source.symm.trans source')
        exact priv
      | _ => trivial
  | op t choice => trivial
  | havoc t res => exact replying.elim

end Step

section Runs

variable {cfg : Config} {free : ListPtr Nat} {readBlocks writeBlocks : Nat → Nat → UInt8} {a : Abstract}

theorem reachable_known (roomy : cfg.bufferCount < 2 ^ cfg.bits)
    (built : ∃ data, clientListSetup data cfg.clientsMax = some free)
    (reach : Transition.Reachable (atomic cfg) Replying (atomicInitial cfg free readBlocks writeBlocks) a) :
    Known cfg a := by
  have receive {a : Abstract} (reach : Transition.Reachable (atomic cfg) Replying
      (atomicInitial cfg free readBlocks writeBlocks) a) :=
    alternating_receive (reach.weaken fun _ _ => Replying.alternating)
  have send {a : Abstract} (reach : Transition.Reachable (atomic cfg) Replying
      (atomicInitial cfg free readBlocks writeBlocks) a) :=
    alternating_send (reach.weaken fun _ _ => Replying.alternating)
  have events {a : Abstract} (reach : Transition.Reachable (atomic cfg) Replying
      (atomicInitial cfg free readBlocks writeBlocks) a) :=
    Receive.reachable_events (fun _ _ orderly => orderly) (receive reach)
  have sound {a : Abstract} (reach : Transition.Reachable (atomic cfg) Replying
      (atomicInitial cfg free readBlocks writeBlocks) a) :=
    Receive.atomic_sound built (fun _ _ orderly => orderly) (receive reach)
  have sourced : Receive.Sourced cfg a.shared.1 :=
    reach.invariant_with (fun a => Receive.Events cfg (Receive.view a.left) ∧
        Receive.Sound cfg (Receive.view a.left).io a.shared.1)
      (fun a => Receive.Sourced cfg a.shared.1) (fun _ reached => ⟨events reached,sound reached⟩)
        (fun _ member => absurd member List.not_mem_nil)
      fun _ _ _ known sourced replying taken => step_sourced sourced known.1 known.2 replying taken
  have tagged : Tagged (privOf a.shared.1) (Send.view a.right) :=
    reach.invariant_with (fun a => Send.Owned cfg (Send.view a.right) ∧ Send.Carried (Send.view a.right))
      (fun a => Tagged (privOf a.shared.1) (Send.view a.right))
      (fun _ reached => ⟨Send.reachable_owned roomy (send reached),Send.reachable_carried roomy (send reached)⟩)
      initial_tagged
      fun _ _ _ known tagged replying taken => tagged.step known.1 known.2 (replying.answering tagged) taken
  exact {
    events := events reach
    sound := sound reach
    streams := Receive.reachable_streams built (receive reach)
    blocks := Receive.reachable_blocks built (receive reach)
    recorded := Receive.atomic_recorded built (receive reach)
    sourced := sourced
    owned := Send.reachable_owned roomy (send reach)
    carried := Send.reachable_carried roomy (send reach)
    tagged := tagged }

end Runs

end Tcpeen.Service
