import Mathlib.Algebra.Group.Int.Defs
import Mathlib.Algebra.Group.Nat.Defs
import Preempt.Tick.Service

/-!
Time as the tick keeps it. The counter and the compare value of a timer wrap, a run of it does
not: `passed` cycles after its start, with `served` firings acknowledged, both registers are where
unbounded counting puts them, modulo a word (`Timer.Follows`). Everything that a tick decides by
wrapped differences is read off that, and holds across any number of wraps.
-/

namespace Preempt

variable {n : Nat}

/-- The cycles since the firing that comes after `served` others, less than none before it. -/
def TickRate.latency (rate : TickRate) (passed served : Nat) : Int :=
  passed - ((served + 1) * rate.period.toNat : Nat)

/-- A timer that was started at counter `origin`, `passed` cycles and `served` firings ago. -/
structure Timer.Follows (t : Timer) (origin period : UInt32) (passed served : Nat) : Prop where
  running : t.running = true
  counter : t.counter = origin + .ofNat passed
  compare : t.compare = origin + .ofNat ((served + 1) * period.toNat)

namespace Timer.Follows

variable {t : Timer} {origin period : UInt32} {passed served : Nat}

theorem started (t : Timer) (period : UInt32) : (t.start period).Follows t.counter period 0 0 where
  running := rfl
  counter := by simp [start]
  compare := by simp [start]

theorem elapse (follows : t.Follows origin period passed served) (cycles : UInt32) :
    (t.elapse cycles).Follows origin period (passed + cycles.toNat) served where
  running := follows.running
  counter := by
    rw [elapse_counter, follows.counter, UInt32.ofNat_add, UInt32.ofNat_toNat, UInt32.add_assoc]
  compare := follows.compare

theorem serve (follows : t.Follows origin period passed served) :
    (t.clearPending.rearm period).Follows origin period passed (served + 1) where
  running := follows.running
  counter := follows.counter
  compare := by
    show t.compare + period = _
    rw [follows.compare, Nat.succ_mul (served + 1), UInt32.ofNat_add, UInt32.ofNat_toNat,
      UInt32.add_assoc]

/-- What is left until the next firing, whatever has wrapped. -/
theorem remaining (follows : t.Follows origin period passed served) :
    (t.remaining.toNat : Int) = (((served + 1) * period.toNat : Nat) - passed : Int) % 2 ^ 32 := by
  have words : t.remaining = .ofNat ((served + 1) * period.toNat) - .ofNat passed := by
    rw [Timer.remaining, follows.compare, follows.counter]
    grind
  rw [words, UInt32.toNat_sub, UInt32.toNat_ofNat', UInt32.toNat_ofNat']
  omega

/-- A timer that follows its start fires when the remaining cycles have passed. -/
theorem fires (follows : t.Follows origin period passed served) (cycles : UInt32) :
    ((t.elapse cycles).pending = true ↔
        t.pending = true ∨ t.remaining.toNat ≤ cycles.toNat) ∧
      (t.remaining.toNat ≤ cycles.toNat ∨
        (t.elapse cycles).remaining.toNat = t.remaining.toNat - cycles.toNat) := by
  constructor
  · simp [Timer.elapse, follows.running, UInt32.le_iff_toNat_le]
  · rw [remaining_elapse]
    by_cases met : t.remaining.toNat ≤ cycles.toNat
    · exact .inl met
    · exact .inr (UInt32.toNat_sub_of_le _ _ (UInt32.le_iff_toNat_le.mpr (by omega)))

end Timer.Follows

namespace Board

/-- Steps that leave the timer of core `c` and the tick rate alone. -/
structure SparesTimer (c : Fin n) (b b' : Board n) : Prop where
  timer : b'.machine.timers.get c = b.machine.timers.get c
  autoReload : b'.machine.autoReload = b.machine.autoReload
  rate : b'.tick.rate = b.tick.rate

/-- Time passes for the timer of core `c`, `passed` cycles in all, in portions of any size. What
else happens meanwhile leaves that timer alone. -/
inductive Passing (c : Fin n) (b : Board n) : Nat → Board n → Prop
  | begin : Passing c b 0 b
  | elapse {b₁ b₂ : Board n} {passed : Nat} {cycles : UInt32} (before : Passing c b passed b₁)
      (mine : b₁.machine.executing = c) (ran : Board.elapse cycles b₁ = .ok () b₂) :
      Passing c b (passed + cycles.toNat) b₂
  | aside {b₁ b₂ : Board n} {passed : Nat} (before : Passing c b passed b₁)
      (spares : b₁.SparesTimer c b₂) : Passing c b passed b₂

theorem elapse_timer {c : Fin n} {b b' : Board n} {cycles : UInt32}
    (mine : b.machine.executing = c) (ran : elapse cycles b = .ok () b') :
    b'.machine.timers.get c = (b.machine.timers.get c).elapse cycles ∧
      b'.machine.autoReload = b.machine.autoReload ∧ b'.tick.rate = b.tick.rate := by
  cases ran
  subst mine
  exact ⟨Machine.timer_updateTimer b.machine _, rfl, rfl⟩

theorem rearm_run {b : Board n} (compares : b.machine.autoReload = false) (period : UInt32) :
    rearm period b =
      .ok (some (b.machine.updateTimer (·.rearm period)).timer.remaining)
        { b with
          machine := b.machine.updateTimer (·.rearm period)
          trace := b.trace.push (.rearm period) } := by
  have told : (b.machine.updateTimer (·.rearm period)).autoReload = false := compares
  simp only [rearm, Action.bind_run, emit, onMachine, machineOf, told]
  rfl

/-- Serving a tick moves the compare value on, and what is left until then tells whether the tick
was late. -/
theorem acknowledge_run {b : Board n} (compares : b.machine.autoReload = false) :
    ∃ b' : Board n,
      b'.machine = b.machine.updateTimer (·.clearPending.rearm b.tick.rate.period) ∧
      b'.tick.rate = b.tick.rate ∧
      b'.tick.lateTicks = b.tick.lateTicks +
        (if b.tick.rate.period < b'.machine.timer.remaining then 1 else 0) ∧
      b.acknowledge =
        if b.tick.rate.period < b'.machine.timer.remaining then
          if b.tick.strict then .error .tickInPast b' else .ok .late b'
        else .ok .onTime b' := by
  have machine : (b.machine.updateTimer (·.clearPending)).updateTimer
      (·.rearm b.tick.rate.period) =
        b.machine.updateTimer (·.clearPending.rearm b.tick.rate.period) := by
    simp [Machine.updateTimer, Machine.timer]
  have cleared (next : Unit → BoardM n Arrival) : (clearPending >>= next) b = next () { b with
      machine := b.machine.updateTimer (·.clearPending), trace := b.trace.push .clearPending } :=
    rfl
  rw [acknowledge, cleared]
  simp only [Action.bind_run, tickClock]
  rw [rearm_run (by exact compares)]
  simp only [machine]
  by_cases late : b.tick.rate.period <
      (b.machine.updateTimer (·.clearPending.rearm b.tick.rate.period)).timer.remaining
  · simp only [late, if_true, Action.bind_run, countLate, log, emit]
    refine ⟨{ b with
      machine := b.machine.updateTimer (·.clearPending.rearm b.tick.rate.period)
      trace := ((b.trace.push .clearPending).push (.rearm b.tick.rate.period)).push (.log .tickLate)
      tick.lateTicks := b.tick.lateTicks + 1 }, rfl, rfl, by simp only [late, if_true], ?_⟩
    simp only [late, if_true]
    cases b.tick.strict <;> rfl
  · simp only [late, if_false]
    exact ⟨{ b with
      machine := b.machine.updateTimer (·.clearPending.rearm b.tick.rate.period)
      trace := (b.trace.push .clearPending).push (.rearm b.tick.rate.period) }, rfl, rfl,
      by simp only [late, if_false, UInt32.add_zero], by simp only [late, if_false]; rfl⟩

/-- A timer that was started is where its start and the time since then put it. -/
structure Keeps (c : Fin n) (rate : TickRate) (origin : UInt32) (passed served : Nat)
    (b : Board n) : Prop where
  follows : (b.machine.timers.get c).Follows origin rate.period passed served
  rate : b.tick.rate = rate
  compares : b.machine.autoReload = false

namespace Passing

variable {c : Fin n} {b b' : Board n} {cycles : Nat}

theorem keeps (passing : Passing c b cycles b') {rate : TickRate} {origin : UInt32}
    {passed served : Nat} (keeps : Keeps c rate origin passed served b) :
    Keeps c rate origin (passed + cycles) served b' := by
  induction passing with
  | begin => exact keeps
  | elapse _ mine ran ih =>
    obtain ⟨timer, autoReload, same⟩ := elapse_timer mine ran
    refine ⟨?_, same.trans ih.rate, autoReload.trans ih.compares⟩
    rw [timer, ← Nat.add_assoc]
    exact ih.follows.elapse _
  | aside _ spares ih =>
    exact ⟨by rw [spares.timer]; exact ih.follows, spares.rate.trans ih.rate,
      spares.autoReload.trans ih.compares⟩

/-- Until a timer fires, it has so much less left as has passed. -/
theorem fires (passing : Passing c b cycles b') {rate : TickRate} {origin : UInt32}
    {passed served : Nat} (keeps : Keeps c rate origin passed served b) :
    ((b'.machine.timers.get c).pending = true →
        (b.machine.timers.get c).pending = true ∨
          (b.machine.timers.get c).remaining.toNat ≤ cycles) ∧
      ((b'.machine.timers.get c).pending = true ∨
        (b.machine.timers.get c).pending = false ∧
          (cycles = 0 ∨ cycles < (b.machine.timers.get c).remaining.toNat) ∧
          (b'.machine.timers.get c).remaining.toNat =
            (b.machine.timers.get c).remaining.toNat - cycles) := by
  induction passing with
  | begin => cases (b.machine.timers.get c).pending <;> simp
  | @elapse b₁ b₂ gone portion before mine ran ih =>
    obtain ⟨pending, left⟩ := (before.keeps keeps).follows.fires portion
    rw [(elapse_timer mine ran).1]
    grind
  | aside _ spares ih => rw [spares.timer]; exact ih

/-- A firing comes when the remaining cycles have passed, in whatever portions they do. -/
theorem fires_iff (passing : Passing c b cycles b') {rate : TickRate} {origin : UInt32}
    {passed served : Nat} (keeps : Keeps c rate origin passed served b)
    (idle : (b.machine.timers.get c).pending = false) (went : 0 < cycles) :
    (b'.machine.timers.get c).pending = true ↔
      (b.machine.timers.get c).remaining.toNat ≤ cycles := by
  obtain ⟨fired, fires⟩ := passing.fires keeps
  constructor
  · intro pending
    simpa [idle] using fired pending
  · intro met
    rcases fires with pending | ⟨_, ahead, _⟩
    · exact pending
    · omega

end Passing

/-- Serving a tick moves the timer of the executing core on by one firing. -/
theorem Keeps.acknowledge {c : Fin n} {rate : TickRate} {origin : UInt32} {passed served : Nat}
    {b : Board n} (keeps : Keeps c rate origin passed served b)
    (mine : b.machine.executing = c) :
    ∃ b' : Board n, Keeps c rate origin passed (served + 1) b' ∧
      (b'.machine.timers.get c).pending = false ∧
      b'.tick.lateTicks = b.tick.lateTicks +
        (if rate.period < (b'.machine.timers.get c).remaining then 1 else 0) ∧
      b.acknowledge =
        if rate.period < (b'.machine.timers.get c).remaining then
          if b.tick.strict then .error .tickInPast b' else .ok .late b'
        else .ok .onTime b' := by
  obtain ⟨b', machine, same, late, ran⟩ := acknowledge_run keeps.compares
  subst mine
  have timer : b'.machine.timers.get b.machine.executing =
      (b.machine.timer.clearPending).rearm rate.period := by
    rw [machine, keeps.rate]
    exact Machine.timer_updateTimer b.machine _
  have own : b'.machine.timer = b'.machine.timers.get b.machine.executing := by
    rw [Machine.timer, machine]
    rfl
  rw [keeps.rate, own] at late ran
  refine ⟨b', ⟨?_, same.trans keeps.rate, by rw [machine]; exact keeps.compares⟩, ?_, late, ran⟩
  · rw [timer]
    exact keeps.follows.serve
  · rw [timer]
    rfl

theorem Keeps.acknowledged {c : Fin n} {rate : TickRate} {origin : UInt32} {passed served : Nat}
    {b b' : Board n} {arrival : Arrival} (keeps : Keeps c rate origin passed served b)
    (mine : b.machine.executing = c) (ran : b.acknowledge = .ok arrival b') :
    Keeps c rate origin passed (served + 1) b' ∧
      (b'.machine.timers.get c).pending = false ∧
      (arrival = .onTime ↔ (b'.machine.timers.get c).remaining ≤ rate.period) := by
  obtain ⟨b₁, kept, idle, _, answer⟩ := keeps.acknowledge mine
  rw [ran] at answer
  by_cases late : rate.period < (b₁.machine.timers.get c).remaining
  · rw [if_pos late] at answer
    split at answer <;> cases answer
    exact ⟨kept, idle, by simpa using late⟩
  · rw [if_neg late] at answer
    cases answer
    exact ⟨kept, idle, by simpa using late⟩

/-- What is left until the next firing is a period less the cycles that its service came late. Past
a period, the difference wraps. -/
theorem Keeps.left {c : Fin n} {rate : TickRate} {origin : UInt32} {passed served : Nat}
    {b : Board n} (keeps : Keeps c rate origin passed (served + 1) b) :
    ((b.machine.timers.get c).remaining.toNat : Int) =
      (rate.period.toNat - rate.latency passed served) % 2 ^ 32 := by
  rw [keeps.follows.remaining, Nat.succ_mul (served + 1), TickRate.latency]
  congr 1
  omega

/-- A service is late if it comes more than one period after its firing. -/
theorem Keeps.late_iff {c : Fin n} {rate : TickRate} {origin : UInt32} {passed served : Nat}
    {b : Board n} (keeps : Keeps c rate origin passed (served + 1) b)
    (since : 0 ≤ rate.latency passed served) (short : rate.latency passed served < 2 ^ 32) :
    rate.period < (b.machine.timers.get c).remaining ↔
      rate.period.toNat < rate.latency passed served := by
  have left := keeps.left
  have word := rate.period.toNat_lt
  rw [UInt32.lt_iff_toNat_lt]
  omega

end Board

/-- One firing as it was acknowledged. -/
structure Acknowledgement where
  pending : Bool
  /-- The cycles since the time of the firing, less than none before it. -/
  latency : Int
  arrival : Arrival

/-- A run of the timer of core `c`: `passed` cycles after it was started at counter `origin`, with
the firings that were acknowledged. -/
inductive Ticking (c : Fin n) (rate : TickRate) (origin : UInt32) :
    Board n → Nat → List Acknowledgement → Prop
  | start {b b' : Board n} (mine : b.machine.executing = c)
      (compares : b.machine.autoReload = false) (set : b.tick.rate = rate)
      (counter : (b.machine.timers.get c).counter = origin) (ran : b.tickStart = .ok () b') :
      Ticking c rate origin b' 0 []
  | pass {b b' : Board n} {passed cycles : Nat} {acks : List Acknowledgement}
      (before : Ticking c rate origin b passed acks) (passing : b.Passing c cycles b') :
      Ticking c rate origin b' (passed + cycles) acks
  | acknowledge {b b' : Board n} {passed : Nat} {acks : List Acknowledgement} {arrival : Arrival}
      (before : Ticking c rate origin b passed acks) (mine : b.machine.executing = c)
      (ran : b.acknowledge = .ok arrival b') :
      Ticking c rate origin b' passed (acks ++
        [{ pending := (b.machine.timers.get c).pending
           latency := rate.latency passed acks.length
           arrival }])

namespace Ticking

variable {c : Fin n} {rate : TickRate} {origin : UInt32} {b b' : Board n} {passed : Nat}
  {acks : List Acknowledgement}

theorem elapse (run : Ticking c rate origin b passed acks) (mine : b.machine.executing = c)
    {cycles : UInt32} (ran : Board.elapse cycles b = .ok () b') :
    Ticking c rate origin b' (passed + cycles.toNat) acks := by
  have ticking := run.pass (.elapse .begin mine ran)
  rwa [Nat.zero_add] at ticking

theorem keeps (run : Ticking c rate origin b passed acks) :
    b.Keeps c rate origin passed acks.length := by
  induction run with
  | @start b b' mine compares set counter ran =>
    cases ran
    subst mine counter set
    refine ⟨?_, rfl, compares⟩
    have timer : (b.machine.updateTimer (·.start b.tick.rate.period)).timers.get
        b.machine.executing = b.machine.timer.start b.tick.rate.period :=
      Machine.timer_updateTimer b.machine _
    exact timer ▸ Timer.Follows.started _ _
  | pass _ passing ih => exact passing.keeps ih
  | @acknowledge b b' _ _ arrival _ mine ran ih =>
    rw [List.length_append]
    exact (ih.acknowledged mine ran).1

/-- If every firing is acknowledged before the next one comes, the compare value is the first point
of the grid that lies ahead, or one that fired. -/
theorem punctual (run : Ticking c rate origin b passed acks)
    (prompt : ∀ ack ∈ acks, ack.pending = true ∧ ack.latency < rate.period.toNat) :
    (∀ ack ∈ acks, ack.arrival = .onTime) ∧
      ((b.machine.timers.get c).pending = true →
        (acks.length + 1) * rate.period.toNat ≤ passed) ∧
      ((b.machine.timers.get c).pending = false →
        acks.length * rate.period.toNat ≤ passed ∧
          passed < (acks.length + 1) * rate.period.toNat) := by
  have word := rate.period.toNat_lt
  have positive : 0 < rate.period.toNat := UInt32.lt_iff_toNat_lt.mp rate.period_pos
  induction run with
  | @start b b' mine compares set counter ran =>
    have idle : (b'.machine.timers.get c).pending = false := by
      cases ran
      subst mine
      exact congrArg Timer.pending (Machine.timer_updateTimer b.machine _)
    simp [idle, positive]
  | @pass b b' passed cycles acks before passing ih =>
    obtain ⟨onTime, fired, idle⟩ := ih prompt
    obtain ⟨came, comes⟩ := passing.fires before.keeps
    have left := before.keeps.follows.remaining
    rw [Nat.succ_mul] at fired idle left ⊢
    refine ⟨onTime, fun pending => ?_, fun quiet => ?_⟩
    · cases before : (b.machine.timers.get c).pending with
      | true => exact Nat.le_add_right_of_le (fired before)
      | false =>
        obtain ⟨since, ahead⟩ := idle before
        have met := (came pending).resolve_left (by simp [before])
        omega
    · obtain ⟨before, ahead, _⟩ := comes.resolve_left (by simp [quiet])
      obtain ⟨since, early⟩ := idle before
      omega
  | @acknowledge b b' passed acks arrival before mine ran ih =>
    obtain ⟨earlier, last⟩ := List.forall_mem_append.mp prompt
    obtain ⟨onTime, fired, _⟩ := ih earlier
    obtain ⟨pending, prompt⟩ := last _ (List.mem_singleton_self _)
    obtain ⟨keeps, idle, arrived⟩ := before.keeps.acknowledged mine ran
    have due := fired pending
    have short : rate.latency passed acks.length < rate.period.toNat := prompt
    have since : rate.latency passed acks.length =
      passed - ((acks.length + 1) * rate.period.toNat : Nat) := rfl
    have inTime : arrival = .onTime := by
      rw [arrived, UInt32.not_lt.symm, keeps.late_iff (by omega) (by omega)]
      omega
    rw [List.length_append, List.length_singleton, Nat.succ_mul (acks.length + 1)]
    refine ⟨List.forall_mem_append.mpr ⟨onTime, List.forall_mem_singleton.mpr inTime⟩,
      fun still => ?_, fun _ => ?_⟩
    · rw [idle] at still
      cases still
    · omega

/-- Time is neither lost nor gained. The compare value stays on the grid that the start laid out,
whatever the latencies; a firing is taken for late exactly if it is acknowledged more than one
period after its time; and if every firing is acknowledged before the next one, none is late and
there are as many as periods have passed. -/
theorem keeps_time (run : Ticking c rate origin b passed acks) :
    (b.machine.timers.get c).compare =
        origin + .ofNat ((acks.length + 1) * rate.period.toNat) ∧
      (b.machine.executing = c → 0 ≤ rate.latency passed acks.length →
        rate.latency passed acks.length < 2 ^ 32 →
        ∃ b' : Board n,
          b'.tick.lateTicks = b.tick.lateTicks +
            (if rate.period.toNat < rate.latency passed acks.length then 1 else 0) ∧
          b.acknowledge =
            if rate.period.toNat < rate.latency passed acks.length then
              if b.tick.strict then .error .tickInPast b' else .ok .late b'
            else .ok .onTime b') ∧
      ((∀ ack ∈ acks, ack.pending = true ∧ ack.latency < rate.period.toNat) →
        (∀ ack ∈ acks, ack.arrival = .onTime) ∧
          ((b.machine.timers.get c).pending = false →
            acks.length = passed / rate.period.toNat)) := by
  refine ⟨run.keeps.follows.compare, fun mine since short => ?_, fun prompt => ?_⟩
  · obtain ⟨b', kept, _, late, ran⟩ := run.keeps.acknowledge mine
    simp only [kept.late_iff since short] at late ran
    exact ⟨b', late, ran⟩
  · obtain ⟨onTime, _, idle⟩ := run.punctual prompt
    refine ⟨onTime, fun quiet => ?_⟩
    obtain ⟨since, early⟩ := idle quiet
    exact (Nat.div_eq_of_lt_le since early).symm

/-- Started 101 cycles before its counter wraps, a timer is served 300 cycles after its first
firing, or 24000 cycles after it. -/
theorem keeps_time_across_wrap : ∃ (b₁ b₂ : Board 1) (acks : List Acknowledgement),
    Ticking 0 default (0 - 101) b₁ 16300 acks ∧ Ticking 0 default (0 - 101) b₂ 40000 [] ∧
      (b₁.machine.timers.get 0).compare = 0 - 101 + 32000 ∧ acks.length = 1 ∧
      (∀ ack ∈ acks, ack.arrival = .onTime) ∧ acks.length = 16300 / 16000 ∧
      ∃ b₃ : Board 1, b₂.acknowledge = .ok .late b₃ := by
  let reset : Board 1 := {
    machine := { Machine.reset 0 false with timers := #v[{ counter := 0 - 101 }] }
    tick := { strict := false } }
  have started : Ticking 0 default (0 - 101) _ 0 [] := .start (b := reset) rfl rfl rfl rfl rfl
  have wait (cycles : UInt32) := started.elapse rfl (Eq.refl (Board.elapse cycles _))
  have fired := wait 16300
  have missed := wait 40000
  have short : TickRate.latency default 16300 0 = 300 := by decide
  have overdue : TickRate.latency default 40000 0 = 24000 := by decide
  have grid : (1 + 1) * (default : TickRate).period.toNat = 32000 := by decide
  have pending := (Bool.eq_false_or_eq_true _).resolve_right fun quiet =>
    absurd ((fired.punctual (by simp)).2.2 quiet).2 (by decide)
  obtain ⟨_, comes, _⟩ := fired.keeps_time
  obtain ⟨b₁, _, served⟩ := comes rfl (short ▸ by decide) (short ▸ by decide)
  obtain ⟨_, comes, _⟩ := missed.keeps_time
  obtain ⟨b₃, _, late⟩ := comes rfl (overdue ▸ by decide) (overdue ▸ by decide)
  have run := fired.acknowledge rfl (served.trans (if_neg (short ▸ by decide)))
  obtain ⟨compare, _, prompt⟩ := run.keeps_time
  obtain ⟨onTime, count⟩ := prompt (List.forall_mem_singleton.mpr ⟨pending, short ▸ by decide⟩)
  have quiet := (fired.keeps.acknowledged rfl (served.trans (if_neg (short ▸ by decide)))).2.1
  exact ⟨_, _, _, run, missed, compare.trans (congrArg (0 - 101 + UInt32.ofNat ·) grid), rfl,
    onTime, count quiet, b₃, late.trans (if_pos (overdue ▸ by decide))⟩

/-- The next firing comes when what is left has passed. That is within a period if the last one was
served on time; after a late one the counter has to go all the way around. -/
theorem next_firing {b₁ : Board n} {arrival : Arrival} {cycles : Nat}
    (run : Ticking c rate origin b passed acks) (mine : b.machine.executing = c)
    (ran : b.acknowledge = .ok arrival b₁) (passing : b₁.Passing c cycles b') (went : 0 < cycles) :
    ∃ left : Nat, left = (rate.period.toNat - rate.latency passed acks.length) % 2 ^ 32 ∧
      (arrival = .onTime ↔ left ≤ rate.period.toNat) ∧
      ((b'.machine.timers.get c).pending = true ↔ left ≤ cycles) := by
  obtain ⟨keeps, idle, arrived⟩ := run.keeps.acknowledged mine ran
  exact ⟨_, keeps.left, arrived.trans UInt32.le_iff_toNat_le, passing.fires_iff keeps idle went⟩

/-- A clock that is not strict, and a first firing served 24000 cycles after its time. -/
theorem served_late : ∃ b₁ b₂ : Board 1, Ticking 0 default 0 b₁ 40000 [] ∧
    b₁.machine.executing = 0 ∧ b₁.acknowledge = .ok .late b₂ ∧ b₂.machine.executing = 0 := by
  let reset : Board 1 := { machine := .reset 0 false, tick := { strict := false } }
  have started : Ticking 0 default 0 _ 0 [] := .start (b := reset) rfl rfl rfl rfl rfl
  have missed := started.elapse rfl (Eq.refl (Board.elapse 40000 _))
  have overdue : TickRate.latency default 40000 0 = 24000 := by decide
  obtain ⟨b₂, kept, _, _, served⟩ := missed.keeps.acknowledge rfl
  rw [if_pos ((kept.late_iff (overdue ▸ by decide) (overdue ▸ by decide)).mpr
    (overdue ▸ by decide))] at served
  exact ⟨_, b₂, missed, rfl, served, Subsingleton.elim _ _⟩

/-- After a tick served 24000 cycles late a period goes by with no firing; it takes the counter a
whole round to meet the compare value. -/
theorem next_firing_after_late : ∃ b₁ b₂ b₃ b₄ : Board 1,
    b₁.acknowledge = .ok .late b₂ ∧ b₂.Passing 0 16000 b₃ ∧
      (b₃.machine.timers.get 0).pending = false ∧ b₂.Passing 0 (2 ^ 32 - 1) b₄ ∧
      (b₄.machine.timers.get 0).pending = true := by
  obtain ⟨b₁, b₂, run, mine, served, mine'⟩ := served_late
  have soon : b₂.Passing 0 16000 _ := .elapse .begin mine' (Eq.refl (Board.elapse 16000 _))
  have far : b₂.Passing 0 (2 ^ 32 - 1) _ := .elapse .begin mine' (Eq.refl (Board.elapse (0 - 1) _))
  have overdue : TickRate.latency default 40000 0 = 24000 := by decide
  obtain ⟨left, is, _, fires⟩ := run.next_firing mine served soon (by decide)
  obtain ⟨left', is', _, fires'⟩ := run.next_firing mine served far (by decide)
  have period : (default : TickRate).period.toNat = 16000 := by decide
  rw [List.length_nil, overdue, period] at is is'
  refine ⟨b₁, b₂, _, _, served, soon, ?_, far, fires'.mpr (by omega)⟩
  rw [Bool.eq_false_iff, ne_eq, fires]
  omega

/-- The next tick after a late one is not compressed into the period that follows. -/
theorem late_tick_not_compressed :
    ¬∀ (rate : TickRate) (origin : UInt32) (b b₁ b' : Board 1) (passed cycles : Nat)
      (acks : List Acknowledgement), Ticking 0 rate origin b passed acks →
        b.machine.executing = 0 → b.acknowledge = .ok .late b₁ → b₁.Passing 0 cycles b' →
        rate.period.toNat ≤ cycles → (b'.machine.timers.get 0).pending = true := by
  intro compressed
  obtain ⟨b₁, b₂, run, mine, served, mine'⟩ := served_late
  have soon : b₂.Passing 0 16000 _ := .elapse .begin mine' (Eq.refl (Board.elapse 16000 _))
  have fired := compressed _ _ _ _ _ _ _ _ run mine served soon (by decide)
  obtain ⟨keeps, idle, arrived⟩ := run.keeps.acknowledged mine served
  have met := (soon.fires_iff keeps idle (by decide)).mp fired
  have early : Arrival.late = .onTime := arrived.mpr (UInt32.le_iff_toNat_le.mpr met)
  cases early

end Ticking

end Preempt
