import Tcpeen.ReceiveHandles
import Tcpeen.ServiceReplies

/-! Runs of the whole service with a log of the calls of uv_close. -/
namespace Tcpeen.Service

open SplitOperation QueueSpsc

def actCloses : Act → State → List Nat
  | .inl b, s => Receive.actCloses b s.1
  | .inr _, _ => []

def resumeCloses (t : Thread) (pc : Pc t) (res : Res Nat) : List Nat := Receive.resumeCloses t pc.1 res

/-- The handles that a step passes to uv_close. -/
def closeCalls (cfg : Config) : Running → SplitLabel Thread Act → List Nat :=
  clientCalls (object QueueName Nat) (machine cfg) actCloses resumeCloses

/-- A run starts without a call. -/
def Logged (cfg : Config) (start : Running) : Running × List Nat → Prop :=
  Transition.Reachable (Transition.logged (step cfg) (closeCalls cfg)) (fun _ _ => True) (start, [])

section Step

variable {cfg : Config} {s s' : Running} {closes closes' : List Nat}

/-- A thread outside the receiving half has nothing to close there. -/
theorem resumeCloses_idle {t : Thread} {pc : Receive.Pc t} (quiet : Receive.request t pc = none) (res : Res Nat) :
    Receive.resumeCloses t pc res = [] := by
  cases t with
  | main => rfl
  | io =>
    cases pc with
    | idle => rfl
    | _ => cases quiet

/-- What is recorded of channels and handles while a callback is in progress. -/
def Records (cfg : Config) (pcs : (t : Thread) → Pc t) (s : State) (closes : List Nat) : Prop :=
  Receive.Sound cfg (pcs .io).1 s.1 ∧ Receive.Recorded s.1 closes

theorem step_records {label : SplitLabel Thread Act} (records : Records cfg s.pcs s.shared closes)
    (taken : Transition.logged (step cfg) (closeCalls cfg) (s, closes) label = some (s', closes')) :
    Records cfg s'.pcs s'.shared closes' := by
  obtain ⟨sound,recorded⟩ := records
  let left (t : Thread) : Receive.Pc t := (s.pcs t).1
  have sound' : Receive.Sound cfg (left .io) s.shared.1 := sound
  have fst (t : Thread) (pc : Receive.Pc t) :
      (Function.update s.pcs t (pc, (s.pcs t).2) .io).1 = Function.update (fun t => (s.pcs t).1) t pc .io :=
    congrFun (update_fst s.pcs t (pc, (s.pcs t).2)) .io
  have snd (t : Thread) (pc : Send.Pc t) :
      (Function.update s.pcs t ((s.pcs t).1, pc) .io).1 = (s.pcs .io).1 := by
    rw [congrFun (update_fst s.pcs t ((s.pcs t).1, pc)) .io]
    simp
  refine client_logged (Records cfg) ?_ ?_ ⟨sound,recorded⟩ taken
  · intro b r done
    cases b with
    | inl b =>
      obtain ⟨-,r,ran,rfl⟩ := join_act_left done
      refine ⟨?_,Receive.act_recorded recorded sound' ran⟩
      have := Receive.act_sound sound' ran
      rwa [← fst] at this
    | inr b =>
      obtain ⟨-,r,ran,rfl⟩ := join_act_right done
      refine ⟨?_,by simpa [actCloses] using recorded⟩
      have same := snd _ r.1
      simp only [machine,join] at same ⊢
      rwa [same]
  · intro t q op res asked
    rcases join_request_cases asked with ⟨q₁,rfl,asked₁⟩ | ⟨q₂,rfl,quiet,asked₂⟩
    · rw [machine,join_resume_left asked₁]
      refine ⟨?_,Receive.resume_recorded recorded sound' t res⟩
      have := Receive.resume_sound t res sound'
      rwa [← fst] at this
    · rw [machine,join_resume_right quiet]
      constructor
      · rwa [snd]
      · simpa [resumeCloses,resumeCloses_idle quiet] using recorded

end Step

theorem logged_records {cfg : Config} {free : ListPtr Nat} {readBlocks writeBlocks : Nat → Nat → UInt8}
    {mem : QueueName → Queue Nat} {s : Running} {closes : List Nat}
    (built : ∃ data, clientListSetup data cfg.clientsMax = some free)
    (run : Logged cfg (initial cfg free readBlocks writeBlocks mem) (s, closes)) :
    Records cfg s.pcs s.shared closes := by
  obtain ⟨data,built⟩ := built
  exact run.invariant (fun x => Records cfg x.1.pcs x.1.shared x.2)
    ⟨Receive.start_sound cfg built readBlocks,Receive.start_recorded cfg free readBlocks⟩
    fun _ _ _ records _ taken => step_records records taken

/-- `on_prep_cb` calls uv_write on the handle of a channel that it has found open. -/
theorem submit_open {cfg : Config} {s s' : Running} {h : Nat} {ok : Bool}
    (taken : step cfg s (.act (.inr (.submit (.uvWrite h ok)))) = some s') :
    ∃ c, (s.shared.1.clientMap c).state = .open ∧ (s.shared.1.clientMap c).priv = some h := by
  obtain ⟨-,r,done,-⟩ := splitStep_act_cases taken
  obtain ⟨permitted,r₂,ran,-⟩ := join_act_right done
  have ran' : Send.act (.submit (.uvWrite h ok)) (s.pcs .io).2 s.shared.2 = some r₂ := ran
  cases pc : (s.pcs .io).2 with
  | prepTest r =>
    have seen : allowed cfg (.inr (.submit (.uvWrite h ok))) (s.pcs .io) s.shared = true := permitted
    rw [show s.pcs .io = ((s.pcs .io).1,.prepTest r) from Prod.ext rfl pc] at seen
    simp only [allowed,found,Bool.and_eq_true,beq_iff_eq] at seen
    exact ⟨_,seen.1,seen.2⟩
  | _ =>
    rw [pc] at ran'
    cases ran'

/-- In every state of every run: a channel is open if and only if its handle is accepted,
neither closed nor freed and points back to it; open channels have different handles; a
handle is passed to uv_close once at most, and was if it is closing or freed; and uv_write
is only called on a live handle. -/
theorem handles_recorded (cfg : Config) (free : ListPtr Nat)
    (built : ∃ data, clientListSetup data cfg.clientsMax = some free)
    (readBlocks writeBlocks : Nat → Nat → UInt8) (mem : QueueName → Queue Nat) (s : Running) (closes : List Nat)
    (run : Logged cfg (initial cfg free readBlocks writeBlocks mem) (s, closes)) :
    (∀ c, (s.shared.1.clientMap c).state = .open ↔
      ∃ h, (s.shared.1.clientMap c).priv = some h ∧ Receive.Live s.shared.1 closes h c) ∧
    (∀ c c' h, (s.shared.1.clientMap c).state = .open → (s.shared.1.clientMap c').state = .open →
      (s.shared.1.clientMap c).priv = some h → (s.shared.1.clientMap c').priv = some h → c = c') ∧
    closes.Nodup ∧
    (∀ h, (s.shared.1.handles h).closing = true ∨
      h < s.shared.1.handleCount ∧ (s.shared.1.handles h).freed = true → h ∈ closes) ∧
    ∀ h ok s', step cfg s (.act (.inr (.submit (.uvWrite h ok)))) = some s' →
      ∃ c, Receive.Live s.shared.1 closes h c := by
  obtain ⟨sound,recorded⟩ := logged_records built run
  have opens := recorded.open_iff sound
  refine ⟨opens,?_,?_,?_,?_⟩
  · intro c c' h open' open'' priv priv'
    obtain ⟨x,same,live⟩ := (opens c).mp open'
    obtain ⟨x',same',live'⟩ := (opens c').mp open''
    obtain rfl := Option.some.inj (priv.symm.trans same)
    obtain rfl := Option.some.inj (priv'.symm.trans same')
    exact Option.some.inj (live.data.symm.trans live'.data)
  · rw [List.nodup_iff_count_le_one]
    intro h
    rw [recorded.counted h]
    split <;> omega
  · rintro h (closing | ⟨named,freed⟩)
    · exact (recorded.closing_iff h).mp closing
    · exact (recorded.closing_iff h).mp (recorded.freed h named freed)
  · intro h ok s' taken
    obtain ⟨c,open',priv⟩ := submit_open taken
    obtain ⟨x,same,live⟩ := (opens c).mp open'
    obtain rfl := Option.some.inj (priv.symm.trans same)
    exact ⟨c,live⟩

/-- A connection has ended and its channel has gone to the next one. -/
theorem handles_recorded_replaced :
    ∃ s closes, Logged serviceConfig serviceStart (s, closes) ∧ closes = [0] ∧
      (s.shared.1.clientMap 9999).state = .open ∧
      ∃ h, (s.shared.1.clientMap 9999).priv = some h ∧ Receive.Live s.shared.1 closes h 9999 := by
  have observed : (Transition.execute (Transition.logged (step serviceConfig) (closeCalls serviceConfig))
      (readRun ++ replacedRun) (serviceStart,[])).map (fun x => (x.2,(x.1.shared.1.clientMap 9999).state)) =
        some ([0],.open) := by decide +kernel
  obtain ⟨⟨s,closes⟩,run,seen⟩ := Option.map_eq_some_iff.mp observed
  obtain ⟨closed,open'⟩ := Prod.mk.inj seen
  have reach : Logged serviceConfig serviceStart (s, closes) := .of_execute (fun _ _ _ => trivial) run
  have recorded := handles_recorded serviceConfig _ Receive.serviceStart_setUp.list _ _ _ s closes reach
  exact ⟨s,closes,reach,closed,open',(recorded.1 9999).mp open'⟩

end Tcpeen.Service
