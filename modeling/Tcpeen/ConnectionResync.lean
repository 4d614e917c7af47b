import Tcpeen.ConnectionFrames

/-! Whatever the peer sends and however it is cut: the decoder of `on_tcp_recv_cb` finds the
frames again and again as long as none is too short, and never after one that is. -/
namespace Tcpeen.Connection

open Framing (framed Sized Incomplete)

/-- The places of the stream where the loop stands before a header. `arrived` counts the
bytes up to the next chunk. -/
def headersAt (closing : Nat → Bool) : Nat → List Arrival → Conn → List Nat
  | _, [], _ => []
  | arrived, a :: rest, c =>
    let arrived := arrived + a.bytes.length
    (headerRests (visitedBy a.now a.bytes c)).map (arrived - ·) ++
      match onTcpRecvCb closing a.now (.data a.bytes) c with
      | none => []
      | some (c, _) => headersAt closing arrived rest c

/-- After these chunks either the connection has been closed, or for every whole frame that
has arrived the loop has stood before a header right behind it, and the decoder now stands
behind the last of them. -/
def Resynced (closing : Nat → Bool) (arrivals : List Arrival) (c : Conn) : Prop :=
  ∃ c' effects, feed closing arrivals c = some (c', effects) ∧
    ((∃ h, .uvClose h ∈ effects) ∨
      (∀ done tail, Framing.payloads (arrivals.flatMap (·.bytes)) = done ++ tail → done ≠ [] →
        (framed done).length ∈ headersAt closing 0 arrivals c) ∧
      Facing (Framing.remainder (arrivals.flatMap (·.bytes))) c')

section Run

variable {closing : Nat → Bool} {c : Conn} {arrivals : List Arrival} {before rest : List UInt8}
  {payloads : List (List UInt8)}

theorem mismatches_open (nread : Nat) (last : UInt64) (payloads : List (List UInt8)) (h : Nat) :
    .uvClose h ∉ mismatches nread last payloads := by
  induction payloads generalizing last with
  | nil => exact List.not_mem_nil
  | cons payload rest ih =>
    simp only [mismatches,mismatch,List.mem_append,not_or]
    refine ⟨?_,ih _⟩
    split <;> simp

theorem headersAt_cons {a : Arrival} {c₁ : Conn} {first : List Effect} (arrived : Nat)
    (received : onTcpRecvCb closing a.now (.data a.bytes) c = some (c₁, first)) :
    headersAt closing arrived (a :: arrivals) c =
      (headerRests (visitedBy a.now a.bytes c)).map (arrived + a.bytes.length - ·) ++
        headersAt closing (arrived + a.bytes.length) arrivals c₁ := by
  simp only [headersAt,received]

theorem visitedBy_nothing (now : UInt64) (c : Conn) : visitedBy now [] c = [] := by
  simp [visitedBy]

/-- Nothing is complete where nothing is added to an incomplete frame. -/
theorem nothing_complete (open' : Incomplete before) (whole : before = framed payloads ++ rest)
    (sized : Sized payloads) : payloads = [] ∧ rest = before := by
  have same : framed payloads ++ rest = framed [] ++ before := whole.symm
  obtain ⟨later,split,behind⟩ := Framing.framed_split sized (fun _ inside => absurd inside List.not_mem_nil) open' same
  obtain ⟨rfl,rfl⟩ := List.append_eq_nil_iff.mp split.symm
  exact ⟨rfl,behind⟩

/-- Frames with long payloads are found one after the other. -/
theorem Fed.headers {c' : Conn} {effects : List Effect} (fed : Fed closing before c arrivals c' effects)
    {arrived : Nat} (within : before.length ≤ arrived) {done tail : List (List UInt8)}
    (split : Framing.payloads (before ++ arrivals.flatMap (·.bytes)) = done ++ tail) (some' : done ≠ []) :
    arrived - before.length + (framed done).length ∈ headersAt closing arrived arrivals c := by
  induction fed generalizing arrived done with
  | done _ open' =>
    rw [List.flatMap_nil,List.append_nil,Framing.payloads_incomplete open'] at split
    exact absurd (List.append_eq_nil_iff.mp split.symm).1 some'
  | @skip before c c' a arrivals effects nothing _ ih =>
    rw [List.flatMap_cons,nothing,List.nil_append] at split
    rw [headersAt_cons arrived (recv_nothing nothing),nothing]
    exact List.mem_append_right _ (ih within split some')
  | @take before c c₁ c' a arrivals later nothing receives _ ih =>
    rw [List.flatMap_cons,← List.append_assoc,(Framing.payloads_append _ _).1] at split
    obtain ⟨whole,-,-⟩ := Framing.payloads_spec (before ++ a.bytes)
    have total := congrArg List.length whole
    simp only [List.length_append] at total
    rw [headersAt_cons arrived receives.received]
    have here (x : List (List UInt8)) (ends : Framing.payloads (before ++ a.bytes) = done ++ x) :
        arrived - before.length + (framed done).length ∈
          (headerRests (visitedBy a.now a.bytes c)).map (arrived + a.bytes.length - ·) := by
      refine List.mem_map.mpr ⟨_,receives.starts done x ends some',?_⟩
      rw [ends,Framing.framed_append,List.length_append] at total
      simp only [List.length_append]
      omega
    rcases List.append_eq_append_iff.mp split with ⟨x,rfl,rest'⟩ | ⟨x,ends,-⟩
    · by_cases last : x = []
      · exact List.mem_append_left _ (here [] (by simp [last]))
      · have place := ih (show (Framing.remainder (before ++ a.bytes)).length ≤ arrived + a.bytes.length by omega)
          rest' last
        refine List.mem_append_right _ ?_
        have same : arrived - before.length + (framed (Framing.payloads (before ++ a.bytes) ++ x)).length =
            arrived + a.bytes.length - (Framing.remainder (before ++ a.bytes)).length + (framed x).length := by
          rw [Framing.framed_append,List.length_append]
          omega
        rw [same]
        exact place
    · exact List.mem_append_left _ (here x ends)

/-- A stuck decoder stays where it is, whatever arrives. -/
theorem feed_stuck (stuck : Stuck c) (kept : Kept closing arrivals c) (arrived : Nat) :
    ∃ c', feed closing arrivals c = some (c', []) ∧ Stuck c' ∧ headersAt closing arrived arrivals c = [] := by
  induction arrivals generalizing c arrived with
  | nil => exact ⟨c,rfl,stuck,rfl⟩
  | cons a arrivals ih =>
    by_cases nothing : a.bytes = []
    · have received : onTcpRecvCb closing a.now (.data a.bytes) c = some (c, []) := recv_nothing nothing
      obtain ⟨c',fed,stuck',none'⟩ := ih stuck (kept.next received) (arrived + a.bytes.length)
      refine ⟨c',feed_cons received fed,stuck',?_⟩
      rw [headersAt_cons arrived received,none',nothing,visitedBy_nothing]
      rfl
    · obtain ⟨b,stored⟩ := Option.isSome_iff_exists.mp kept.1
      obtain ⟨c₁,received,stuck₁,visited⟩ := stuck.recv closing a.now nothing stored
      obtain ⟨c',fed,stuck',none'⟩ := ih stuck₁ (kept.next received) (arrived + a.bytes.length)
      refine ⟨c',feed_cons received fed,stuck',?_⟩
      rw [headersAt_cons arrived received,none',visited]
      rfl

/-- Behind the first short payload no header is ever found. -/
theorem feed_short {short : List UInt8} {tail : List (List UInt8)} (facing : Facing before c)
    (open' : Incomplete before) (kept : Kept closing arrivals c)
    (whole : before ++ arrivals.flatMap (·.bytes) = framed (payloads ++ short :: tail) ++ rest)
    (incomplete : Incomplete rest) (sized : Sized (payloads ++ short :: tail))
    (long : ∀ d ∈ payloads, 17 ≤ d.length) (few : short.length ≤ 16) {arrived : Nat}
    (within : before.length ≤ arrived) :
    ∃ c' effects, feed closing arrivals c = some (c', effects) ∧ (∀ h, .uvClose h ∉ effects) ∧ Stuck c' ∧
      ∀ place ∈ headersAt closing arrived arrivals c,
        place ≤ arrived - before.length + (framed payloads).length := by
  induction arrivals generalizing c before payloads arrived with
  | nil =>
    have none' := (nothing_complete open' (by simpa using whole) sized).1
    simp at none'
  | cons a arrivals ih =>
    rw [List.flatMap_cons] at whole
    by_cases nothing : a.bytes = []
    · have received : onTcpRecvCb closing a.now (.data a.bytes) c = some (c, []) := recv_nothing nothing
      obtain ⟨c',effects,fed,silent,stuck,bound⟩ := ih facing open' (kept.next received)
        (by rw [← whole,nothing]; rfl) sized long (show before.length ≤ arrived + a.bytes.length by omega)
      refine ⟨c',_,feed_cons received fed,silent,stuck,?_⟩
      rw [headersAt_cons arrived received,nothing,visitedBy_nothing]
      simpa [nothing,headerRests] using bound
    · obtain ⟨now,later,left,split,arrives,incomplete',behind⟩ := Framing.split_arrival whole sized incomplete
      obtain ⟨b,stored⟩ := Option.isSome_iff_exists.mp kept.1
      have total := congrArg List.length arrives
      simp only [List.length_append] at total
      have waiting (x : List (List UInt8)) (prefix' : payloads = now ++ x) (rest' : later = x ++ short :: tail) :
          ∃ c' effects, feed closing (a :: arrivals) c = some (c', effects) ∧ (∀ h, .uvClose h ∉ effects) ∧
            Stuck c' ∧ ∀ place ∈ headersAt closing arrived (a :: arrivals) c,
              place ≤ arrived - before.length + (framed payloads).length := by
        obtain ⟨sized₁,-⟩ := Framing.Sized.of_append (split ▸ sized)
        obtain ⟨c₁,receives⟩ := recv_frames closing a.now facing nothing stored arrives sized₁
          (fun d inside => long d (prefix' ▸ List.mem_append_left _ inside)) (.inl incomplete')
        rw [rest'] at behind
        obtain ⟨c',effects,fed,silent,stuck,bound⟩ := ih (receives.waits incomplete').facing incomplete'
          (kept.next receives.received) behind (rest' ▸ (Framing.Sized.of_append (split ▸ sized)).2)
          (fun d inside => long d (prefix' ▸ List.mem_append_right _ inside))
          (show left.length ≤ arrived + a.bytes.length by omega)
        refine ⟨c',_,feed_cons receives.received fed,?_,stuck,?_⟩
        · intro h member
          rcases List.mem_append.mp member with first | later
          · exact mismatches_open _ _ _ h first
          · exact silent h later
        · intro place member
          rw [prefix',Framing.framed_append,List.length_append]
          rw [headersAt_cons arrived receives.received] at member
          rcases List.mem_append.mp member with here | there
          · obtain ⟨r,among,rfl⟩ := List.mem_map.mp here
            have := receives.bound r among
            omega
          · have := bound place there
            omega
      rcases List.append_eq_append_iff.mp split with ⟨x,done,rest'⟩ | ⟨x,rfl,rfl⟩
      · cases x with
        | nil => exact waiting [] (by simpa using done.symm) (by simpa using rest'.symm)
        | cons d x =>
          obtain ⟨rfl,rfl⟩ := List.cons.inj rest'
          have arrives' : before ++ a.bytes = framed payloads ++ (Framing.frame short ++ (framed x ++ left)) := by
            rw [arrives,done,Framing.framed_append,framed]
            simp only [List.append_assoc]
          obtain ⟨sized₁,sized₂⟩ := sized.of_append
          obtain ⟨c₁,receives⟩ := recv_frames closing a.now facing nothing stored arrives' sized₁ long
            (.inr ⟨short,_,few,rfl⟩)
          have stuck := receives.stuck (Framing.frame_complete sized₂.head)
          obtain ⟨c',fed,stuck',none'⟩ :=
            feed_stuck stuck (kept.next receives.received) (arrived + a.bytes.length)
          refine ⟨c',_,feed_cons receives.received fed,?_,stuck',?_⟩
          · intro h
            rw [List.append_nil]
            exact mismatches_open _ _ _ h
          · intro place member
            rw [headersAt_cons arrived receives.received,none',List.append_nil] at member
            obtain ⟨r,among,rfl⟩ := List.mem_map.mp member
            have := receives.bound r among
            have sum := congrArg List.length arrives'
            simp only [List.length_append] at sum this
            omega
      · exact waiting x rfl rfl

theorem first_short (some' : ¬ ∀ d ∈ payloads, 17 ≤ d.length) :
    ∃ good short tail, payloads = good ++ short :: tail ∧ (∀ d ∈ good, 17 ≤ d.length) ∧ short.length ≤ 16 := by
  induction payloads with
  | nil => exact absurd (fun d inside => absurd inside List.not_mem_nil) some'
  | cons payload rest ih =>
    by_cases few : payload.length ≤ 16
    · exact ⟨[],payload,rest,rfl,fun d inside => absurd inside List.not_mem_nil,few⟩
    · have later : ¬ ∀ d ∈ rest, 17 ≤ d.length := by
        intro long
        refine some' fun d inside => ?_
        rcases List.mem_cons.mp inside with rfl | inside
        · omega
        · exact long d inside
      obtain ⟨good,short,tail,rfl,long,few'⟩ := ih later
      refine ⟨payload :: good,short,tail,rfl,fun d inside => ?_,few'⟩
      rcases List.mem_cons.mp inside with rfl | inside
      · omega
      · exact long d inside

theorem nothing_incomplete : Incomplete [] := .inl (by decide)

theorem not_resynced (clean : Facing [] c) (kept : Kept closing arrivals c)
    (some' : ¬ ∀ d ∈ Framing.payloads (arrivals.flatMap (·.bytes)), 17 ≤ d.length) :
    ¬ Resynced closing arrivals c := by
  obtain ⟨whole,sized,incomplete⟩ := Framing.payloads_spec (arrivals.flatMap (·.bytes))
  obtain ⟨good,short,tail,split,long,few⟩ := first_short some'
  rw [split] at whole sized
  obtain ⟨c',effects,fed,silent,stuck,bound⟩ := feed_short clean nothing_incomplete kept whole incomplete sized
    long few (Nat.le_refl 0)
  rintro ⟨c'',effects',fed',⟨h,closes⟩ | ⟨found,-⟩⟩
  · obtain ⟨rfl,rfl⟩ := Prod.mk.inj (Option.some.inj (fed.symm.trans fed'))
    exact silent h closes
  · have place := bound _ (found (good ++ [short]) tail (by rw [split]; simp) (by simp))
    rw [Framing.framed_append,List.length_append] at place
    simp only [framed,List.append_nil,Framing.frame_length,List.length_nil] at place
    omega

end Run

/-- For every stream and every way of cutting it that the buffer has room for: the connection
is closed, or the decoder finds every frame, exactly where all payloads that have arrived are
of 17 bytes or more. -/
theorem resync_exact (closing : Nat → Bool) (arrivals : List Arrival) (c : Conn) (clean : Facing [] c)
    (kept : Kept closing arrivals c) :
    Resynced closing arrivals c ↔
      ∀ payload ∈ Framing.payloads (arrivals.flatMap (·.bytes)), 17 ≤ payload.length := by
  constructor
  · intro resynced
    by_contra some'
    exact not_resynced clean kept some' resynced
  · intro long
    obtain ⟨c',effects,fed⟩ := fed_of_kept clean nothing_incomplete kept long
    refine ⟨c',effects,fed.feed,.inr ⟨fun done tail split some' => ?_,fed.facing⟩⟩
    simpa using fed.headers (Nat.le_refl 0) split some'

theorem established_clean (ctx : Context) (mem : Nat → UInt8) (handle : Nat) :
    Facing [] (established ctx mem handle) :=
  ⟨Buffer.setup_valid _ _ (by decide),rfl,rfl⟩

/-- Bytes that arrive at an established connection. -/
def seventeen : List Arrival :=
  [⟨5,[0,0]⟩,⟨6,[0,17,0,0,0,0,0,0,0,1,0,0,0,0,0,0,0,2,9,0,0]⟩]

/-- A payload of 17 bytes, cut inside its length and followed by two bytes of the next. -/
theorem resync_seventeen : Resynced (fun _ => false) seventeen (established ⟨0,0,0,0⟩ (fun _ => 0) 1) := by
  refine (resync_exact _ _ _ (established_clean ..) ?_).mpr (by decide)
  decide +kernel

/-- A payload of 16 bytes, and a frame behind it. -/
def sixteen : List Arrival :=
  [⟨5,[0,0,0,16,0,0,0,0,0,0,0,1,0,0,0,0,0,0,0,2]⟩,⟨6,[0,0,0,17]⟩]

/-- The payload is never left: what follows is taken for its continuation. -/
theorem resync_sixteen_stuck :
    ¬ ∀ (closing : Nat → Bool) (arrivals : List Arrival) (c : Conn), Facing [] c → Kept closing arrivals c →
      Resynced closing arrivals c := by
  intro always
  have kept : Kept (fun _ => false) sixteen (established ⟨0,0,0,0⟩ (fun _ => 0) 1) := by decide +kernel
  have clean := established_clean ⟨0,0,0,0⟩ (fun _ => 0) 1
  exact not_resynced clean kept (by decide) (always _ _ _ clean kept)

end Tcpeen.Connection
