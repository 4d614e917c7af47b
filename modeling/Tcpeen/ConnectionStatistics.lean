import Mathlib.Data.UInt
import Tcpeen.ConnectionResync

/-! The statistics of `on_tcp_recv_cb`. They are taken once for each chunk, with the latency of
the last frame in it, and so depend on how the stream is cut. -/
namespace Tcpeen.Connection

open Framing (framed Sized Incomplete)

structure Statistics where
  recvMsgs : UInt64
  latencyTotal : UInt64
  latencyMax : UInt64
  deriving DecidableEq, Repr

def Conn.statistics (c : Conn) : Statistics := ⟨c.recvMsgs, c.latencyTotal, c.latencyMax⟩

/-- The statistics of frames with these latencies, on top of earlier ones. -/
def Statistics.after (s : Statistics) (latencies : List UInt64) : Statistics where
  recvMsgs := s.recvMsgs + UInt64.ofNat latencies.length
  latencyTotal := s.latencyTotal + latencies.sum
  latencyMax := latencies.foldl max s.latencyMax

/-- For each chunk with data its time and the payloads that it completes. -/
def groups : List UInt8 → List Arrival → List (UInt64 × List (List UInt8))
  | _, [] => []
  | before, a :: rest =>
    if a.bytes = [] then groups before rest
    else (a.now, Framing.payloads (before ++ a.bytes)) :: groups (Framing.remainder (before ++ a.bytes)) rest

/-- The payloads of a stream, each with the time at which its last byte arrives. -/
def completions (arrivals : List Arrival) : List (UInt64 × List UInt8) :=
  (groups [] arrivals).flatMap fun group => group.2.map (group.1, ·)

/-- The latencies that the payloads of a chunk have. -/
def groupLatencies (group : UInt64 × List (List UInt8)) : List UInt64 := group.2.map (payloadLatency group.1)

/-- The one that is recorded: the last. -/
def recorded (group : UInt64 × List (List UInt8)) : UInt64 := (groupLatencies group).getLastD 0

/-- The ones that are not. -/
def skipped (group : UInt64 × List (List UInt8)) : List UInt64 := (groupLatencies group).dropLast

/-- As many chunks as frames, and what is not recorded adds nothing. -/
structure Counted (latencyMax : UInt64) (arrivals : List Arrival) : Prop where
  number : UInt64.ofNat (groups [] arrivals).length = UInt64.ofNat (completions arrivals).length
  total : ((groups [] arrivals).flatMap skipped).sum = 0
  greatest : ∀ latency ∈ (groups [] arrivals).flatMap skipped,
    latency ≤ latencyMax ∨ ∃ group ∈ groups [] arrivals, latency ≤ recorded group

/-- The statistics after the chunks. -/
def statisticsAfter (closing : Nat → Bool) (arrivals : List Arrival) (c : Conn) : Option Statistics :=
  (feed closing arrivals c).map fun result => result.1.statistics

/-- Two ways to cut a stream lead to the same statistics, those of its frames. -/
def Unsegmented (closing : Nat → Bool) (arrivals arrivals' : List Arrival) (c : Conn) : Prop :=
  ∃ s, statisticsAfter closing arrivals c = some s ∧ statisticsAfter closing arrivals' c = some s ∧
    s = c.statistics.after ((completions arrivals).map fun frame => payloadLatency frame.1 frame.2)

section Latencies

variable {s : Statistics} {first later : List UInt64}

theorem Statistics.after_append : s.after (first ++ later) = (s.after first).after later := by
  simp only [Statistics.after,List.length_append,UInt64.ofNat_add,List.sum_append,List.foldl_append,
    UInt64.add_assoc]

theorem max_le_word (a b bound : UInt64) : max a b ≤ bound ↔ a ≤ bound ∧ b ≤ bound := by
  have word : max a b = if a ≤ b then b else a := rfl
  rw [word]
  split <;> simp only [UInt64.le_iff_toNat_le] at * <;> omega

theorem le_max_word (a b bound : UInt64) : bound ≤ max a b ↔ bound ≤ a ∨ bound ≤ b := by
  have word : max a b = if a ≤ b then b else a := rfl
  rw [word]
  split <;> simp only [UInt64.le_iff_toNat_le] at * <;> omega

theorem foldl_max_le (start bound : UInt64) (latencies : List UInt64) :
    latencies.foldl max start ≤ bound ↔ start ≤ bound ∧ ∀ latency ∈ latencies, latency ≤ bound := by
  induction latencies generalizing start with
  | nil => simp
  | cons latency rest ih =>
    rw [List.foldl_cons,ih,List.forall_mem_cons,max_le_word,and_assoc]

theorem le_foldl_max (start bound : UInt64) (latencies : List UInt64) :
    bound ≤ latencies.foldl max start ↔ bound ≤ start ∨ ∃ latency ∈ latencies, bound ≤ latency := by
  induction latencies generalizing start with
  | nil => simp
  | cons latency rest ih =>
    rw [List.foldl_cons,ih,le_max_word]
    simp [or_assoc]

theorem lastLatency_getLastD (now latency : UInt64) (payloads : List (List UInt8)) :
    lastLatency now latency payloads = (payloads.map (payloadLatency now)).getLastD latency := by
  induction payloads generalizing latency with
  | nil => rfl
  | cons payload rest ih =>
    rw [List.map_cons,List.getLastD_cons,← ih]
    rfl

theorem Counts.statistics {now : UInt64} {payloads : List (List UInt8)} {c c' : Conn}
    (counts : Counts now payloads c c') : c'.statistics = c.statistics.after [recorded (now, payloads)] := by
  have last : recorded (now, payloads) = lastLatency now 0 payloads := (lastLatency_getLastD now 0 payloads).symm
  have greatest : (if c.latencyMax < lastLatency now 0 payloads then lastLatency now 0 payloads else c.latencyMax) =
      max c.latencyMax (lastLatency now 0 payloads) := by
    refine UInt64.le_antisymm ?_ ((max_le_word ..).mpr ?_)
    · rw [le_max_word]
      split
      · exact .inr (UInt64.le_refl _)
      · exact .inl (UInt64.le_refl _)
    · split
      · next less => exact ⟨UInt64.le_of_lt less,UInt64.le_refl _⟩
      · next least => exact ⟨UInt64.le_refl _,UInt64.not_lt.mp least⟩
  simp only [Conn.statistics,Statistics.after,last,counts.recvMsgs,counts.latencyTotal,counts.latencyMax,greatest,
    List.length_singleton,List.sum_singleton,List.foldl_cons,List.foldl_nil]
  rfl

theorem groupLatencies_cases (group : UInt64 × List (List UInt8)) :
    (groupLatencies group = [] ∧ skipped group = [] ∧ recorded group = 0) ∨
      groupLatencies group = skipped group ++ [recorded group] := by
  by_cases none' : groupLatencies group = []
  · exact .inl ⟨none',by simp [skipped,none'],by simp [recorded,none']⟩
  · right
    rw [skipped,recorded,List.getLastD_eq_getLast?,List.getLast?_eq_some_getLast none',Option.getD_some,
      List.dropLast_concat_getLast none']

variable (all : List (UInt64 × List (List UInt8)))

theorem groups_sum : (all.flatMap groupLatencies).sum = (all.flatMap skipped).sum + (all.map recorded).sum := by
  induction all with
  | nil => rfl
  | cons group rest ih =>
    have own : (groupLatencies group).sum = (skipped group).sum + recorded group := by
      rcases groupLatencies_cases group with ⟨none',skips,last⟩ | parts
      · rw [none',skips,last]
        rfl
      · rw [parts,List.sum_append,List.sum_singleton]
    simp only [List.flatMap_cons,List.map_cons,List.sum_append,List.sum_cons,ih,own]
    ac_rfl

theorem groups_bounded (bound : UInt64) : (∀ latency ∈ all.flatMap groupLatencies, latency ≤ bound) ↔
    (∀ latency ∈ all.flatMap skipped, latency ≤ bound) ∧ ∀ latency ∈ all.map recorded, latency ≤ bound := by
  induction all with
  | nil => simp
  | cons group rest ih =>
    have own : (∀ latency ∈ groupLatencies group, latency ≤ bound) ↔
        (∀ latency ∈ skipped group, latency ≤ bound) ∧ recorded group ≤ bound := by
      rcases groupLatencies_cases group with ⟨none',skips,last⟩ | parts
      · simp [none',skips,last]
      · rw [parts,List.forall_mem_append,List.forall_mem_singleton]
    simp only [List.flatMap_cons,List.map_cons,List.forall_mem_append,List.forall_mem_cons,ih,own]
    tauto

theorem groups_greatest (start : UInt64) :
    (all.map recorded).foldl max start = (all.flatMap groupLatencies).foldl max start ↔
      ∀ latency ∈ all.flatMap skipped, latency ≤ (all.map recorded).foldl max start := by
  obtain ⟨least,above⟩ := (foldl_max_le start _ (all.map recorded)).mp (UInt64.le_refl _)
  constructor
  · intro same
    have bounded := (foldl_max_le start _ _).mp (UInt64.le_of_eq same.symm)
    exact ((groups_bounded all _).mp bounded.2).1
  · intro small
    have bounded := (foldl_max_le start _ (all.flatMap groupLatencies)).mp (UInt64.le_refl _)
    refine UInt64.le_antisymm ((foldl_max_le ..).mpr ⟨bounded.1,((groups_bounded all _).mp bounded.2).2⟩) ?_
    exact (foldl_max_le ..).mpr ⟨least,(groups_bounded all _).mpr ⟨small,above⟩⟩

end Latencies

theorem completions_latencies (arrivals : List Arrival) :
    ((completions arrivals).map fun frame => payloadLatency frame.1 frame.2) =
      (groups [] arrivals).flatMap groupLatencies := by
  simp only [completions,List.map_flatMap,List.map_map]
  rfl

/-- What is recorded for the chunks is what the frames amount to. -/
theorem after_recorded (s : Statistics) (arrivals : List Arrival) :
    s.after ((groups [] arrivals).map recorded) =
        s.after ((completions arrivals).map fun frame => payloadLatency frame.1 frame.2) ↔
      Counted s.latencyMax arrivals := by
  have length := congrArg List.length (completions_latencies arrivals)
  rw [List.length_map] at length
  have small (latency : UInt64) : latency ≤ ((groups [] arrivals).map recorded).foldl max s.latencyMax ↔
      latency ≤ s.latencyMax ∨ ∃ group ∈ groups [] arrivals, latency ≤ recorded group := by
    rw [le_foldl_max]
    simp
  have rest (a b : UInt64) : a = b + a ↔ b = 0 := by grind
  rw [completions_latencies]
  simp only [Statistics.after,Statistics.mk.injEq,UInt64.add_right_inj,List.length_map,groups_greatest,groups_sum,
    ← length,small,rest]
  constructor
  · rintro ⟨number,total,greatest⟩
    exact ⟨number,total,greatest⟩
  · intro counted
    exact ⟨counted.number,counted.total,counted.greatest⟩

section Run

variable {closing : Nat → Bool} {c : Conn} {arrivals : List Arrival} {before : List UInt8}

theorem Fed.statistics {c' : Conn} {effects : List Effect} (fed : Fed closing before c arrivals c' effects) :
    c'.statistics = c.statistics.after ((groups before arrivals).map recorded) := by
  induction fed with
  | done _ _ => simp [groups,Statistics.after,Conn.statistics]
  | skip nothing _ ih => rw [ih,groups,if_pos nothing]
  | take nothing receives _ ih =>
    have waits := receives.waits (Framing.payloads_spec _).2.2
    rw [ih,waits.counts.statistics,← Statistics.after_append,groups,if_neg nothing,List.map_cons,
      List.singleton_append]

theorem statisticsAfter_recorded (clean : Facing [] c) (kept : Kept closing arrivals c)
    (long : ∀ payload ∈ Framing.payloads (arrivals.flatMap (·.bytes)), 17 ≤ payload.length) :
    statisticsAfter closing arrivals c = some (c.statistics.after ((groups [] arrivals).map recorded)) := by
  obtain ⟨c',effects,fed⟩ := fed_of_kept clean nothing_incomplete kept long
  rw [statisticsAfter,fed.feed,Option.map_some,fed.statistics]

end Run

/-- For every stream of frames with payloads of 17 bytes or more and every two ways of cutting
it that the buffer has room for, with the same time for the end of each frame: the statistics
are the same, and those of the frames, exactly where both ways record every frame. -/
theorem statistics_exact (closing : Nat → Bool) (arrivals arrivals' : List Arrival) (c : Conn)
    (clean : Facing [] c) (kept : Kept closing arrivals c) (kept' : Kept closing arrivals' c)
    (same : arrivals.flatMap (·.bytes) = arrivals'.flatMap (·.bytes))
    (long : ∀ payload ∈ Framing.payloads (arrivals.flatMap (·.bytes)), 17 ≤ payload.length)
    (times : completions arrivals = completions arrivals') :
    Unsegmented closing arrivals arrivals' c ↔
      Counted c.latencyMax arrivals ∧ Counted c.latencyMax arrivals' := by
  have first := statisticsAfter_recorded clean kept long
  have second := statisticsAfter_recorded clean kept' (same ▸ long)
  rw [Unsegmented,first,second]
  constructor
  · rintro ⟨s,equal,equal',ideal⟩
    obtain rfl := Option.some.inj equal
    refine ⟨(after_recorded c.statistics _).mp ideal,(after_recorded c.statistics _).mp ?_⟩
    rw [Option.some.inj equal',ideal,times]
  · rintro ⟨counted,counted'⟩
    have ideal := (after_recorded c.statistics arrivals).mpr counted
    have ideal' := (after_recorded c.statistics arrivals').mpr counted'
    exact ⟨_,rfl,by rw [ideal,ideal',times],ideal⟩

/-- Two frames, each with a payload of 17 bytes sent at time zero. -/
def twoFrames : List UInt8 :=
  framed [[0,0,0,0,0,0,0,1,0,0,0,0,0,0,0,0,9],[0,0,0,0,0,0,0,2,0,0,0,0,0,0,0,0,9]]

/-- Each frame in a chunk of its own, the second of them cut inside its header. -/
def apart : List Arrival := [⟨3000000,twoFrames.take 21⟩,⟨5000000,twoFrames.drop 21⟩]

def apart' : List Arrival := [⟨3000000,twoFrames.take 23⟩,⟨5000000,twoFrames.drop 23⟩]

theorem statistics_apart : Unsegmented (fun _ => false) apart apart' (established ⟨0,0,0,0⟩ (fun _ => 0) 1) := by
  have none' : (groups [] apart).flatMap skipped = [] := by decide
  have none'' : (groups [] apart').flatMap skipped = [] := by decide
  refine (statistics_exact _ _ _ _ (established_clean ..) ?_ ?_ (by simp [apart,apart']) (by decide) (by decide)).mpr ?_
  · decide +kernel
  · decide +kernel
  · exact ⟨⟨by decide,by decide,by simp [none']⟩,⟨by decide,by decide,by simp [none'']⟩⟩

/-- Both frames at once. -/
def together : List Arrival := [⟨5000000,twoFrames⟩]

/-- The same frames at the same time in two chunks. -/
def twice : List Arrival := [⟨5000000,twoFrames.take 21⟩,⟨5000000,twoFrames.drop 21⟩]

/-- The first of two frames that arrive together is not counted. -/
theorem statistics_together :
    ¬ ∀ (closing : Nat → Bool) (arrivals arrivals' : List Arrival) (c : Conn), Facing [] c →
      Kept closing arrivals c → Kept closing arrivals' c →
      arrivals.flatMap (·.bytes) = arrivals'.flatMap (·.bytes) →
      (∀ payload ∈ Framing.payloads (arrivals.flatMap (·.bytes)), 17 ≤ payload.length) →
      completions arrivals = completions arrivals' → Unsegmented closing arrivals arrivals' c := by
  intro always
  have clean := established_clean ⟨0,0,0,0⟩ (fun _ => 0) 1
  have kept : Kept (fun _ => false) together (established ⟨0,0,0,0⟩ (fun _ => 0) 1) := by decide +kernel
  have kept' : Kept (fun _ => false) twice (established ⟨0,0,0,0⟩ (fun _ => 0) 1) := by decide +kernel
  obtain ⟨s,seen,-,ideal⟩ := always _ _ _ _ clean kept kept' (by decide) (by decide) (by decide)
  rw [statisticsAfter_recorded clean kept (by decide)] at seen
  obtain rfl := Option.some.inj seen
  exact absurd (congrArg Statistics.recvMsgs ideal) (by decide)

end Tcpeen.Connection
