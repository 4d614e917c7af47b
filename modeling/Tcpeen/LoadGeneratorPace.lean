import Tcpeen.LoadGeneratorPhases
import Tcpeen.CmdArgs

/-! The pace that `main` of tcplg.c sets and `on_tick_cb` keeps: from the rate and the time of the
command line to bounds on what a connection sends by any reading of the clock. -/
namespace Tcpeen.LoadGenerator

open CmdArgs (CmdlineArgs Outcome parseTcploadgenArgs)

def tnTstampS : UInt64 := 1
def tnTstampMs : UInt64 := 1000
def tnTstampNs : UInt64 := 1000000000

/-- `aws_timestamp_convert` where it is asked for no remainder. -/
def tnTstampConvert (tstamp convertFrom convertTo : UInt64) : UInt64 :=
  if convertFrom < convertTo then tstamp * (convertTo / convertFrom)
  else if convertTo < convertFrom then tstamp / (convertFrom / convertTo)
  else tstamp

/-- The ticks convert their nanoseconds so. -/
theorem toMs_convert (ticks : UInt64) : tnTstampConvert ticks tnTstampNs tnTstampMs = toMs ticks := rfl

/-- `main` between the parsing of the arguments and the start of the timer. -/
def mainConfig {memory : ByteCursor.Memory} (args : CmdlineArgs memory) : Config where
  numConns := args.clients.toNat
  transmitTicks := if args.rate = 0 then 0 else UInt64.ofInt (Int.tdiv 1000000000 args.rate)
  transmitTimeMs := tnTstampConvert (UInt64.ofInt args.time) tnTstampS tnTstampMs
  message := ((args.message.map ByteCursor.CString.bytes).getD []).take args.msglen.toNat

/-- The clock does not go back, and reads `opened` at the earliest. -/
def Clocked (opened : Nat) (s : State) : Label → Prop
  | .tick input => opened ≤ input.first.toNat ∧ s.currentTicks ≤ input.first ∧ input.first ≤ input.now
  | .callback .. => True

instance (opened : Nat) (s : State) (label : Label) : Decidable (Clocked opened s label) := by
  cases label <;> unfold Clocked <;> infer_instance

/-- So much time lies between the opening and `start_ticks`. -/
def Since (opened : Nat) (s : State) (span : Nat) : Prop :=
  span = 0 ∧ s.startTicks = 0 ∨ opened + span ≤ s.startTicks.toNat

/-- A tick that acts comes `transmit_ticks` after the one before. Each of them takes a phase further or
sends one message for each connection, and adds its milliseconds to `elapsed_ms`. -/
structure Paced (cfg : Config) (opened : Nat) (s : State) : Prop where
  behind : s.startTicks ≤ s.currentTicks
  rate : ∀ i, Since opened s (((s.msgs i).toNat + min s.appstate 2) * cfg.transmitTicks.toNat)
  elapsed : Since opened s (s.elapsedMs.toNat * 1000000)
  silent : s.appstate < 2 → ∀ i, s.msgs i = 0
  spaced : s.appstate = 2 → ∀ i, (s.msgs i).toNat * (cfg.transmitTicks.toNat / 1000000) ≤ s.elapsedMs.toNat
  bounded : ∀ i, (s.msgs i).toNat * (cfg.transmitTicks.toNat / 1000000) ≤ cfg.transmitTimeMs.toNat
  lasted : 3 ≤ s.appstate → Since opened s ((cfg.transmitTimeMs.toNat + 1) * 1000000)

section Pace

variable {cfg : Config} {opened : Nat} {input : TickInput} {s s' : State} {label : Label}

theorem Since.since {span : Nat} (held : Since opened s span) (first : opened ≤ input.first.toNat) :
    opened + span ≤ (s.since input).toNat := by
  unfold State.since
  rcases held with ⟨rfl,zero⟩ | late
  · rw [if_pos zero]
    omega
  · split
    · next zero =>
      rw [zero] at late
      have nothing : opened + span ≤ 0 := late
      omega
    · exact late

theorem since_now (behind : s.startTicks ≤ s.currentTicks) (clocked : Clocked opened s (.tick input)) :
    (s.since input).toNat ≤ input.now.toNat ∧
      (input.now - s.since input).toNat = input.now.toNat - (s.since input).toNat := by
  obtain ⟨-,onward,reading⟩ := clocked
  have order : s.since input ≤ input.now := by
    unfold State.since
    simp only [UInt64.le_iff_toNat_le] at *
    split <;> omega
  exact ⟨UInt64.le_iff_toNat_le.mp order,UInt64.toNat_sub_of_le _ _ order⟩

/-- The clock and the time that has passed. -/
theorem Ticks.clock (ticks : Ticks cfg input s s') : s'.currentTicks = input.now ∧
    (input.now - s.since input < cfg.transmitTicks ∧ s'.startTicks = s.since input ∧ s'.elapsedMs = s.elapsedMs ∧
        s'.appstate = s.appstate ∧ s'.conns = s.conns ∨
      ¬ input.now - s.since input < cfg.transmitTicks ∧ s'.startTicks = input.now ∧
        (s'.elapsedMs = 0 ∨ s'.elapsedMs = s.elapsedMs + toMs (input.now - s.since input))) := by
  cases ticks with
  | early early same => exact ⟨by rw [same],.inl ⟨early,by rw [same],by rw [same],by rw [same],by rw [same]⟩⟩
  | moves acts _ same => exact ⟨by rw [same]; rfl,.inr ⟨acts,by rw [same]; rfl,.inr (by rw [same]; rfl)⟩⟩
  | connects acts _ taken =>
    obtain ⟨-,-,only | ⟨same,-⟩⟩ := connectPhase_places taken
    · rw [only]
      exact ⟨rfl,.inr ⟨acts,rfl,.inr rfl⟩⟩
    · rw [same]
      exact ⟨rfl,.inr ⟨acts,rfl,.inl rfl⟩⟩
  | transmits acts _ taken =>
    have transmitted := transmitPhase_transmitted taken
    refine ⟨transmitted.current,.inr ⟨acts,transmitted.started,?_⟩⟩
    rcases transmitted.phase with ⟨-,same⟩ | ⟨-,zero,-⟩
    · exact .inr same
    · exact .inl zero
  | reports acts _ taken =>
    obtain ⟨s₁,ran,same⟩ := Option.map_eq_some_iff.mp taken
    obtain ⟨-,-,started,current,-,-⟩ := reportPhase_places taken
    exact ⟨current,.inr ⟨acts,started,.inl (by rw [← same])⟩⟩
  | rests acts _ same => exact ⟨by rw [same]; rfl,.inr ⟨acts,by rw [same]; rfl,.inr (by rw [same]; rfl)⟩⟩

/-- The milliseconds with which a tick that acts works. -/
def State.passed (s : State) (input : TickInput) : UInt64 := s.elapsedMs + toMs (input.now - s.since input)

theorem Ticks.transmitting (ticks : Ticks cfg input s s') (acts : ¬ input.now - s.since input < cfg.transmitTicks)
    (phase : s.appstate = 2) : s'.appstate = 2 ∧ s'.elapsedMs = s.passed input ∨
      s'.appstate = 3 ∧ cfg.transmitTimeMs < s.passed input := by
  cases ticks with
  | transmits _ _ taken =>
    rcases (transmitPhase_transmitted taken).phase with ⟨same,elapsed⟩ | ⟨more,-,expired⟩
    · exact .inl ⟨same.trans phase,elapsed⟩
    · exact .inr ⟨more.trans (congrArg (· + 1) phase),expired⟩
  | early early _ => exact absurd early acts
  | _ => omega

/-- A message is sent in phase 2 only, one for each tick that acts before its time is over. -/
theorem Ticks.sent (ticks : Ticks cfg input s s') (ordered : ∀ i, Connection.Ordered (s.conns i)) (i : Nat) :
    s'.msgs i = s.msgs i ∨ s.appstate = 2 ∧ s.passed input ≤ cfg.transmitTimeMs ∧
      (s'.msgs i).toNat ≤ (s.msgs i).toNat + 1 := by
  by_cases phase : s.appstate = 2
  · cases ticks with
    | early _ same => exact .inl (by rw [same]; rfl)
    | transmits _ _ taken =>
      obtain ⟨turns,expired,-,-,-,-⟩ := transmitPhase_transmitted taken
      by_cases past : cfg.transmitTimeMs < s.passed input
      · exact .inl (by rw [State.msgs,expired past]; rfl)
      · rcases ((turns i).current (ordered i)).2 with same | more
        · exact .inl same
        · refine .inr ⟨phase,UInt64.not_lt.mp past,?_⟩
          have wrap : s'.msgs i = s.msgs i + 1 := more
          rw [wrap,UInt64.toNat_add]
          exact Nat.mod_le _ _
    | _ => omega
  · exact .inl ((ticks.turned i).current phase)

theorem Paced.tick (paced : Paced cfg opened s) (ordered : ∀ i, Connection.Ordered (s.conns i))
    (clocked : Clocked opened s (.tick input)) (ticks : Ticks cfg input s s') : Paced cfg opened s' := by
  obtain ⟨behind,rate,elapsed,silent,spaced,bounded,lasted⟩ := paced
  obtain ⟨order,difference⟩ := since_now behind clocked
  have first := clocked.1
  obtain ⟨current,⟨-,started,kept,phase,conns⟩ | ⟨acts,started,elapses⟩⟩ := ticks.clock
  · have msgs : s'.msgs = s.msgs := funext fun i => by rw [State.msgs,conns]; rfl
    have later {span : Nat} (held : Since opened s span) : Since opened s' span := by
      refine .inr ?_
      rw [started]
      exact held.since first
    refine ⟨?_,fun i => ?_,?_,?_,?_,?_,fun late => ?_⟩
    · rw [started,current]
      exact UInt64.le_iff_toNat_le.mpr order
    · rw [msgs,phase]
      exact later (rate i)
    · rw [kept]
      exact later elapsed
    · rw [msgs,phase]
      exact silent
    · rw [msgs,phase,kept]
      exact spaced
    · rw [msgs]
      exact bounded
    · exact later (lasted (by omega))
  · have apart : cfg.transmitTicks.toNat ≤ input.now.toNat - (s.since input).toNat := by
      rw [← difference]
      exact UInt64.le_iff_toNat_le.mp (UInt64.not_lt.mp acts)
    have milliseconds : (s.passed input).toNat =
        s.elapsedMs.toNat + (input.now.toNat - (s.since input).toNat) / 1000000 := by
      have added : (toMs (input.now - s.since input)).toNat =
          (input.now.toNat - (s.since input).toNat) / 1000000 := by
        rw [toMs,UInt64.toNat_div,difference]
        rfl
      have inside : opened + s.elapsedMs.toNat * 1000000 ≤ (s.since input).toNat := elapsed.since first
      have word := input.now.toNat_lt
      rw [State.passed,UInt64.toNat_add,added,Nat.mod_eq_of_lt (by omega)]
    have later {span span' : Nat} (held : Since opened s span)
        (more : span' ≤ span + (input.now.toNat - (s.since input).toNat)) : Since opened s' span' := by
      have inside := held.since first
      refine .inr ?_
      rw [started]
      omega
    have spacing : cfg.transmitTicks.toNat / 1000000 ≤ (input.now.toNat - (s.since input).toNat) / 1000000 :=
      Nat.div_le_div_right apart
    have phases := ticks.phase
    have sent := ticks.sent ordered
    refine ⟨?_,fun i => ?_,?_,fun early i => ?_,fun phase i => ?_,fun i => ?_,fun late => ?_⟩
    · rw [started,current]
      exact UInt64.le_refl _
    · refine later (rate i) ?_
      have grown : (s'.msgs i).toNat + min s'.appstate 2 ≤ (s.msgs i).toNat + min s.appstate 2 + 1 := by
        rcases sent i with same | ⟨phase,-,more⟩
        · rw [same]
          omega
        · omega
      calc ((s'.msgs i).toNat + min s'.appstate 2) * cfg.transmitTicks.toNat
          ≤ ((s.msgs i).toNat + min s.appstate 2 + 1) * cfg.transmitTicks.toNat := Nat.mul_le_mul_right _ grown
        _ = ((s.msgs i).toNat + min s.appstate 2) * cfg.transmitTicks.toNat + cfg.transmitTicks.toNat :=
            Nat.succ_mul ..
        _ ≤ _ := Nat.add_le_add_left apart _
    · rcases elapses with zero | sum
      · rw [zero]
        exact later elapsed (by simp)
      · have same : s'.elapsedMs = s.passed input := sum
        rw [same,milliseconds]
        refine later elapsed ?_
        omega
    · rcases sent i with same | ⟨phase,-,-⟩
      · rw [same]
        exact silent (by omega) i
      · omega
    · by_cases before : s.appstate = 2
      · rcases ticks.transmitting acts before with ⟨-,same⟩ | ⟨more,-⟩
        · rw [same,milliseconds]
          have far := spaced before i
          rcases sent i with same | ⟨-,-,more⟩
          · rw [same]
            omega
          · calc (s'.msgs i).toNat * (cfg.transmitTicks.toNat / 1000000)
                ≤ ((s.msgs i).toNat + 1) * (cfg.transmitTicks.toNat / 1000000) := Nat.mul_le_mul_right _ more
              _ = (s.msgs i).toNat * (cfg.transmitTicks.toNat / 1000000) + cfg.transmitTicks.toNat / 1000000 :=
                  Nat.succ_mul ..
              _ ≤ _ := Nat.add_le_add far spacing
        · omega
      · rcases sent i with same | ⟨phase,-,-⟩
        · rw [same,silent (by omega) i]
          simp
        · omega
    · rcases sent i with same | ⟨before,intime,more⟩
      · rw [same]
        exact bounded i
      · have far := spaced before i
        have room := UInt64.le_iff_toNat_le.mp intime
        calc (s'.msgs i).toNat * (cfg.transmitTicks.toNat / 1000000)
            ≤ ((s.msgs i).toNat + 1) * (cfg.transmitTicks.toNat / 1000000) := Nat.mul_le_mul_right _ more
          _ = (s.msgs i).toNat * (cfg.transmitTicks.toNat / 1000000) + cfg.transmitTicks.toNat / 1000000 :=
              Nat.succ_mul ..
          _ ≤ cfg.transmitTimeMs.toNat := by omega
    · by_cases before : s.appstate = 2
      · rcases ticks.transmitting acts before with ⟨same,-⟩ | ⟨-,expired⟩
        · omega
        · refine later elapsed ?_
          have past := UInt64.lt_iff_toNat_lt.mp expired
          omega
      · exact later (lasted (by omega)) (Nat.le_add_right ..)

/-- A callback sends nothing. -/
theorem callback_msgs {j : Nat} {moved : Connection.Label} (ordered : ∀ i, Connection.Ordered (s.conns i))
    (about : moved.callback ≠ none)
    (place : Connection.step (inContext (s.conns j) s.ctx) moved = some (s'.conns j))
    (others : ∀ i, i ≠ j → s'.conns i = s.conns i) : s'.msgs = s.msgs := by
  funext i
  by_cases own : i = j
  · subst own
    have current := callback_current (inContext_ordered (ordered i) s.ctx) about place
    exact current
  · rw [State.msgs,others i own]
    rfl

theorem Paced.step (paced : Paced cfg opened s) (ordered : ∀ i, Connection.Ordered (s.conns i))
    (clocked : Clocked opened s label) (taken : step cfg s label = some s') : Paced cfg opened s' := by
  rcases step_cases taken with ⟨input,rfl,-,ticks⟩ | ⟨i,moved,-,-,about,place,others,only⟩
  · exact paced.tick ordered clocked ticks
  · have msgs := callback_msgs ordered about place others
    obtain ⟨behind,rate,elapsed,silent,spaced,bounded,lasted⟩ := paced
    have clock : s'.startTicks = s.startTicks ∧ s'.currentTicks = s.currentTicks ∧ s'.elapsedMs = s.elapsedMs ∧
        s'.appstate = s.appstate := by
      rw [only]
      exact ⟨rfl,rfl,rfl,rfl⟩
    obtain ⟨started,current,kept,phase⟩ := clock
    have since : Since opened s' = Since opened s := by
      unfold Since
      rw [started]
    refine ⟨?_,?_,?_,?_,?_,?_,?_⟩ <;> simpa only [started,current,kept,phase,msgs,since]

theorem reachable_paced {mems : Nat → Nat → UInt8}
    (reach : Transition.Reachable (LoadGenerator.step cfg) (Clocked opened) (start mems) s) : Paced cfg opened s := by
  have none' (i : Nat) : ((start mems).msgs i).toNat = 0 := rfl
  refine reach.invariant_with (fun s => ∀ i, Connection.Ordered (s.conns i)) (Paced cfg opened)
    (fun _ reached => reachable_ordered reached) ?_ ?_
  · have nothing : ((start mems).elapsedMs.toNat * 1000000) = 0 := Nat.zero_mul _
    refine ⟨UInt64.le_refl _,fun i => .inl ⟨?_,rfl⟩,.inl ⟨nothing,rfl⟩,fun _ _ => rfl,fun phase => ?_,fun i => ?_,
      fun late => ?_⟩
    · rw [none' i]
      simp [start]
    · simp [start] at phase
    · rw [none' i]
      simp
    · simp [start] at late
  · intro s label s' ordered paced clocked taken
    exact paced.step ordered clocked taken

/-- A late tick makes up for nothing. -/
theorem step_sent (ordered : ∀ i, Connection.Ordered (s.conns i)) (taken : step cfg s label = some s') (i : Nat) :
    (s'.msgs i).toNat ≤ (s.msgs i).toNat + 1 := by
  rcases step_cases taken with ⟨input,rfl,-,ticks⟩ | ⟨j,moved,-,-,about,place,others,-⟩
  · rcases ticks.sent ordered i with same | ⟨-,-,more⟩
    · rw [same]
      omega
    · exact more
  · rw [callback_msgs ordered about place others]
    omega

/-- Since the tick that acted last at `a`, each message took its spacing. -/
structure Spread (cfg : Config) (a s : State) : Prop where
  begun : s.startTicks ≠ 0
  apart : ∀ i, a.startTicks.toNat + ((s.msgs i).toNat - (a.msgs i).toNat) * cfg.transmitTicks.toNat ≤
    s.startTicks.toNat

theorem Spread.step {a : State} (spread : Spread cfg a s) (behind : s.startTicks ≤ s.currentTicks)
    (ordered : ∀ i, Connection.Ordered (s.conns i)) (clocked : Clocked opened s label)
    (taken : LoadGenerator.step cfg s label = some s') : Spread cfg a s' := by
  obtain ⟨begun,apart⟩ := spread
  have sent := step_sent ordered taken
  rcases step_cases taken with ⟨input,rfl,-,ticks⟩ | ⟨j,moved,-,-,about,place,others,only⟩
  · obtain ⟨order,difference⟩ := since_now behind clocked
    have started : s.since input = s.startTicks := if_neg begun
    obtain ⟨-,⟨-,kept,-,-,conns⟩ | ⟨acts,now,-⟩⟩ := ticks.clock
    · refine ⟨by rwa [kept,started],fun i => ?_⟩
      rw [kept,started,State.msgs,conns]
      exact apart i
    · have later : cfg.transmitTicks.toNat ≤ input.now.toNat - s.startTicks.toNat := by
        rw [← started,← difference]
        exact UInt64.le_iff_toNat_le.mp (UInt64.not_lt.mp acts)
      rw [started] at order
      refine ⟨fun zero => ?_,fun i => ?_⟩
      · have nothing : s.startTicks.toNat = 0 := by
          rw [← now,zero] at order
          exact Nat.le_zero.mp order
        exact begun (UInt64.toNat_inj.mp nothing)
      · have grown : (s'.msgs i).toNat - (a.msgs i).toNat ≤ (s.msgs i).toNat - (a.msgs i).toNat + 1 := by
          have more := sent i
          omega
        rw [now]
        calc a.startTicks.toNat + ((s'.msgs i).toNat - (a.msgs i).toNat) * cfg.transmitTicks.toNat
            ≤ a.startTicks.toNat + ((s.msgs i).toNat - (a.msgs i).toNat + 1) * cfg.transmitTicks.toNat :=
              Nat.add_le_add_left (Nat.mul_le_mul_right _ grown) _
          _ = a.startTicks.toNat + ((s.msgs i).toNat - (a.msgs i).toNat) * cfg.transmitTicks.toNat +
                cfg.transmitTicks.toNat := by rw [Nat.succ_mul,Nat.add_assoc]
          _ ≤ s.startTicks.toNat + cfg.transmitTicks.toNat := Nat.add_le_add_right (apart i) _
          _ ≤ input.now.toNat := by omega
  · have started : s'.startTicks = s.startTicks := by rw [only]
    refine ⟨by rwa [started],fun i => ?_⟩
    rw [started,callback_msgs ordered about place others]
    exact apart i

theorem later_spread {mems : Nat → Nat → UInt8} {later : State}
    (reach : Transition.Reachable (LoadGenerator.step cfg) (Clocked opened) (start mems) s)
    (begun : s.startTicks ≠ 0)
    (rest : Transition.Reachable (LoadGenerator.step cfg) (Clocked opened) s later) : Spread cfg s later := by
  refine rest.invariant_with
    (Transition.Reachable (LoadGenerator.step cfg) (Clocked opened) (start mems)) (Spread cfg s)
    (fun _ reached => reach.trans reached) ⟨begun,fun i => by simp⟩ ?_
  intro s label s' reached spread clocked taken
  have behind := (reachable_paced reached).behind
  exact spread.step behind (reachable_ordered reached) clocked taken

theorem Since.current (behind : s.startTicks ≤ s.currentTicks) {span : Nat} (held : Since opened s span) :
    span ≤ s.currentTicks.toNat - opened := by
  have order := UInt64.le_iff_toNat_le.mp behind
  rcases held with ⟨zero,-⟩ | late <;> omega

end Pace

section Arguments

variable {memory : ByteCursor.Memory} {bcArray : Nat → ByteCursor.AwsByteCursor} {given args : CmdlineArgs memory}

/-- The checks leave a rate and a time that `main` can work with. -/
theorem accepted_pace (accepted : parseTcploadgenArgs bcArray given = .accepted args) :
    args.rate = (if given.rate < 0 then 1 else given.rate) ∧ args.time = if given.time ≤ 0 then 10 else given.time := by
  have parts {host port : ByteCursor.AwsByteCursor} {before : CmdlineArgs memory}
      (taken : CmdArgs.parseParts host port before = .accepted args) :
      args.rate = before.rate ∧ args.time = before.time := by
    simp only [CmdArgs.parseParts] at taken
    repeat' split at taken
    all_goals cases taken
    exact ⟨rfl,rfl⟩
  have server {address : ByteCursor.CString memory} {before : CmdlineArgs memory}
      (taken : CmdArgs.parseServer bcArray address before = .accepted args) :
      args.rate = before.rate ∧ args.time = before.time := by
    simp only [CmdArgs.parseServer] at taken
    split at taken
    · cases taken
    · cases taken
    · exact parts taken
  simp only [parseTcploadgenArgs] at accepted
  split at accepted
  · cases accepted
  · split at accepted
    · cases accepted
    · split at accepted
      · cases accepted
      · exact server accepted

/-- What needs no default is left as it is. -/
theorem parse_entered {message server : ByteCursor.CString memory} (messageGiven : given.message = some message)
    (serverGiven : given.server = some server) (some' : 0 < CmdArgs.toInt message.bytes.length)
    (clients : 0 < given.clients) (rate : 0 ≤ given.rate) (time : 0 < given.time) :
    parseTcploadgenArgs bcArray given =
      CmdArgs.parseServer bcArray server { given with msglen := CmdArgs.toInt message.bytes.length } := by
  simp only [parseTcploadgenArgs,messageGiven,serverGiven,if_neg (Int.not_le.mpr some'),
    if_neg (Int.not_le.mpr clients),if_neg (Int.not_lt.mpr rate),if_neg (Int.not_le.mpr time)]

theorem ofInt_small {n : Nat} (word : n < 2 ^ 64) : (UInt64.ofInt (n : Int)).toNat = n := by
  have kept : ((n : Int) % 2 ^ 64).toNat = n := by omega
  rw [UInt64.ofInt,kept,UInt64.toNat_ofNat',Nat.mod_eq_of_lt word]

theorem mainConfig_ticks (positive : 0 ≤ args.rate) :
    (mainConfig args).transmitTicks.toNat = 1000000000 / args.rate.toNat := by
  obtain ⟨rate,same⟩ := Int.eq_ofNat_of_zero_le positive
  simp only [mainConfig,same]
  split
  · next zero =>
    have none' : rate = 0 := by omega
    simp [none']
  · have quotient : Int.tdiv 1000000000 (rate : Int) = ((1000000000 / rate : Nat) : Int) :=
      (Int.ofNat_tdiv 1000000000 rate).symm
    have bound : 1000000000 / rate ≤ 1000000000 := Nat.div_le_self ..
    rw [quotient,ofInt_small (by omega),Int.toNat_natCast]

theorem mainConfig_time (positive : 0 ≤ args.time) (int : args.time < 2 ^ 31) :
    (mainConfig args).transmitTimeMs.toNat = 1000 * args.time.toNat := by
  obtain ⟨time,same⟩ := Int.eq_ofNat_of_zero_le positive
  have factor : (tnTstampMs / tnTstampS).toNat = 1000 := by decide
  simp only [mainConfig,tnTstampConvert,if_pos (by decide : tnTstampS < tnTstampMs),same]
  rw [UInt64.toNat_mul,factor,ofInt_small (by omega),Int.toNat_natCast]
  omega

end Arguments

/-- From the command line to the wire, by every order of ticks and callbacks under a clock that does not
go back, whatever is late or lost. A step takes at most one message of a connection; for a rate between
1 and 10⁹ its messages are `10⁹ / rate` nanoseconds apart, rounded down: from the opening of the clock,
and from the tick that acted last in any state of the run. For a rate up to 1000 the time of the
transmission holds the messages that fit in it `1000 / rate` milliseconds apart, rounded down. The
report comes after that time. -/
theorem rate_kept {memory : ByteCursor.Memory} (bcArray : Nat → ByteCursor.AwsByteCursor)
    (given args : CmdlineArgs memory) (accepted : parseTcploadgenArgs bcArray given = .accepted args)
    (int : given.time < 2 ^ 31) (mems : Nat → Nat → UInt8) (opened : Nat) (s : State)
    (reach : Transition.Reachable (step (mainConfig args)) (Clocked opened) (start mems) s) :
    (∀ label s', step (mainConfig args) s label = some s' →
      ∀ i, (s'.msgs i).toNat ≤ (s.msgs i).toNat + 1) ∧
    (0 < args.rate → args.rate ≤ 1000000000 → 0 < 1000000000 / args.rate.toNat ∧
      (∀ i, ((s.msgs i).toNat + min s.appstate 2) * (1000000000 / args.rate.toNat) ≤
        s.currentTicks.toNat - opened) ∧
      ∀ later, Transition.Reachable (step (mainConfig args)) (Clocked opened) s later → s.startTicks ≠ 0 →
        ∀ i, ((later.msgs i).toNat - (s.msgs i).toNat) * (1000000000 / args.rate.toNat) ≤
          later.currentTicks.toNat - s.startTicks.toNat) ∧
    (0 < args.rate → args.rate ≤ 1000 →
      ∀ i, (s.msgs i).toNat ≤ 1000 * args.time.toNat / (1000 / args.rate.toNat)) ∧
    (3 ≤ s.appstate → 1000000 * (1000 * args.time.toNat) < s.currentTicks.toNat - opened) := by
  obtain ⟨rate,time⟩ := accepted_pace accepted
  have rates : 0 ≤ args.rate := by split at rate <;> omega
  have times : 0 ≤ args.time ∧ args.time < 2 ^ 31 := by split at time <;> omega
  have ticks := mainConfig_ticks rates
  obtain ⟨behind,paces,-,-,-,bounded,lasted⟩ := reachable_paced reach
  rw [mainConfig_time times.1 times.2] at bounded lasted
  rw [ticks] at paces bounded
  refine ⟨fun label s' taken => step_sent (reachable_ordered reach) taken,fun positive fits =>
    ⟨?_,fun i => (paces i).current behind,fun later rest begun i => ?_⟩,fun positive most i => ?_,fun late => ?_⟩
  · exact Nat.div_pos (by omega) (by omega)
  · have spread := (later_spread reach begun rest).apart i
    have current := UInt64.le_iff_toNat_le.mp (reachable_paced (reach.trans rest)).behind
    rw [ticks] at spread
    omega
  · have millis : 1000000000 / args.rate.toNat / 1000000 = 1000 / args.rate.toNat := by
      rw [Nat.div_div_eq_div_mul,Nat.mul_comm,← Nat.div_div_eq_div_mul]
    have room : 0 < 1000 / args.rate.toNat := Nat.div_pos (by omega) (by omega)
    have held := bounded i
    rw [millis] at held
    exact (Nat.le_div_iff_mul_le room).mpr held
  · have far := (lasted late).current behind
    omega

/-- Two messages a second for ten seconds. -/
def pacedArgs : CmdlineArgs CmdArgs.sample :=
  { CmdArgs.sampleArgs CmdArgs.sampleAddress with clients := 1, rate := 2, time := 10 }

def pacedArgs' : CmdlineArgs CmdArgs.sample :=
  { pacedArgs with
    msglen := 1
    host := CmdArgs.padded [104] ++ pacedArgs.host.drop 32
    port := 80 }

theorem pacedArgs_accepted : parseTcploadgenArgs CmdArgs.clean pacedArgs = .accepted pacedArgs' := by
  have length : CmdArgs.toInt CmdArgs.sampleMessage.bytes.length = 1 := by decide
  have entered : parseTcploadgenArgs CmdArgs.clean pacedArgs = CmdArgs.parseServer CmdArgs.clean
      CmdArgs.sampleAddress { pacedArgs with msglen := CmdArgs.toInt CmdArgs.sampleMessage.bytes.length } :=
    parse_entered rfl rfl (by decide) (by decide) (by decide) (by decide)
  have text : CmdArgs.sampleAddress.bytes = [104] ++ 58 :: [56,48] := rfl
  have host : ByteCursor.load CmdArgs.sample 16 1 = some [104] := by decide
  have port : ByteCursor.load CmdArgs.sample 18 2 = some [56,48] := by decide
  rw [entered,length,CmdArgs.parseServer_two text (by decide) (by decide),
    CmdArgs.parseParts_number rfl (by decide) host port,if_pos (by decide)]
  rfl

/-- A tick that comes too early sends nothing. -/
def secondsRun : List Label :=
  [tickAt 1,tickAt 500000001,tickAt 1000000001,.callback 0 (.connectedCb 0 true true),tickAt 1500000001,
    tickAt 2000000001,tickAt 2100000001]

theorem rate_kept_seconds :
    ∃ s, Transition.Reachable (step (mainConfig pacedArgs')) (Clocked 1) (start fun _ _ => 0) s ∧
      s.msgs 0 = 1 ∧ s.currentTicks = 2100000001 ∧
      ((s.msgs 0).toNat + min s.appstate 2) * (1000000000 / pacedArgs'.rate.toNat) ≤ s.currentTicks.toNat - 1 ∧
      (s.msgs 0).toNat ≤ 1000 * pacedArgs'.time.toNat / (1000 / pacedArgs'.rate.toNat) := by
  have observed : (Transition.execute
      (Transition.checked (step (mainConfig pacedArgs')) fun s label => Clocked 1 s label) secondsRun
      (start fun _ _ => 0)).map (fun s => (s.msgs 0, s.currentTicks)) = some (1, 2100000001) := by decide +kernel
  obtain ⟨s,run,same⟩ := Option.map_eq_some_iff.mp observed
  obtain ⟨used,current⟩ := Prod.mk.inj same
  have reach : Transition.Reachable (step (mainConfig pacedArgs')) (Clocked 1) (start fun _ _ => 0) s :=
    .of_checked (fun _ _ passed => of_decide_eq_true passed) run
  have kept := rate_kept _ pacedArgs pacedArgs' pacedArgs_accepted (by decide) _ 1 s reach
  obtain ⟨-,paces,-⟩ := kept.2.1 (by decide) (by decide)
  exact ⟨s,reach,used,current,paces 0,kept.2.2.1 (by decide) (by decide) 0⟩

end Tcpeen.LoadGenerator
