import Preempt.Proofs.Segment.FreeList
import Preempt.Proofs.Segment.Handover

/-!
A switch below open calls. `Deepened` compares a pool with the same pool after some calls: the
calls have taken the first free segments, and the chain behind them is where it was. A call, a
return and a change at the end of the calls' segments keep it, and once all calls have returned
the pools differ in data words of free segments only (`Deepened.flat`). So a task switch does the
same at every depth (`switch_depth_independent`).
-/

namespace Vector

theorem eq_of_get {α : Type} {n : Nat} {xs ys : Vector α n} (same : ∀ i, xs.get i = ys.get i) :
    xs = ys :=
  Vector.ext fun i inside => same ⟨i, inside⟩

end Vector

namespace Preempt

namespace Pool

variable {size n : Nat} {p q : Pool size n} {c : Fin n} {i : Fin size}
  {front free rest : List (Fin size)} {data : Vector Word dataWords}
  {frames : List (Vector Word dataWords)}

/-- The pools differ in data words of free segments only. -/
structure SameButFree (p q : Pool size n) : Prop where
  freeHead : q.freeHead = p.freeHead
  links : q.links = p.links
  inUse : q.inUse = p.inUse
  linked : ∀ i, (q.segments.get i).link = (p.segments.get i).link
  used : ∀ i, p.inUse.get i = true → q.segments.get i = p.segments.get i

/-- Calls with the data `frames` have put the segments `front` in front of a core's live chain, the
last call first. -/
structure Deepened (p q : Pool size n) (c : Fin n) (front : List (Fin size))
    (frames : List (Vector Word dataWords)) (rest : List (Fin size)) : Prop where
  flat : p.WellFormed (front.reverse ++ rest)
  deep : q.WellFormed rest
  leads : q.Leads (q.links.get c) front (p.links.get c)
  spilled : front.map (fun i => (q.segments.get i).data) = frames
  others : ∀ d, c ≠ d → q.links.get d = p.links.get d
  used : ∀ i, p.inUse.get i = true → q.segments.get i = p.segments.get i

namespace Deepened

theorem refl (w : p.WellFormed free) (c : Fin n) : Deepened p p c [] [] free :=
  ⟨w, w, .here, rfl, fun _ _ => rfl, fun _ _ => rfl⟩

theorem once (d : Deepened p q c front frames rest) : front.Nodup := by
  have whole := (List.nodup_append'.mp d.flat.once).1
  exact List.nodup_reverse.mp whole

theorem not_mem_front (d : Deepened p q c front frames rest) (used : p.inUse.get i = true) :
    i ∉ front := by
  have outside := (d.flat.inUse i).mp used
  simp only [List.mem_append, List.mem_reverse, not_or] at outside
  exact outside.1

theorem marked (d : Deepened p q c front frames rest) (used : p.inUse.get i = true) :
    q.inUse.get i = true := by
  have outside := (d.flat.inUse i).mp used
  simp only [List.mem_append, not_or] at outside
  rw [d.deep.inUse]
  exact outside.2

theorem not_mem_rest (d : Deepened p q c front frames rest) (inside : i ∈ front) : i ∉ rest :=
  fun there => (List.nodup_append'.mp d.flat.once).2.2 (List.mem_reverse.mpr inside) there

theorem push (d : Deepened p q c front frames (i :: rest)) (data : Vector Word dataWords)
    (upper enabled : Bool) :
    ∃ r, Pool.push c data upper enabled q = .ok (.ok q.freeHead) r ∧
      Deepened p r c (i :: front) (data :: frames) rest := by
  obtain ⟨r, ran, w, links, segments⟩ := d.deep.push c data upper enabled
  have apart : i ∉ front := fun inside => d.not_mem_rest inside (by simp)
  have same := get_put_of_not_mem q.segments apart { link := q.links.get c, data }
  rw [← segments] at same
  have atFirst : r.segments.get i = { link := q.links.get c, data } := by simp [segments]
  refine ⟨r, ran, ?_, w, .step ?_ ?_, ?_, fun e apart => ?_, fun j used => ?_⟩
  · simpa using d.flat
  · simpa [links] using d.deep.path.named
  · rw [atFirst]
    exact d.leads.congr same
  · rw [List.map_cons, atFirst, ← d.spilled]
    congr 1
    exact List.map_congr_left fun j inside => by rw [same j inside]
  · rw [links, Vector.get_put_of_ne _ apart, d.others e apart]
  · rw [segments, Vector.get_put_of_ne, d.used j used]
    rintro rfl
    exact (d.flat.inUse i).mp used (by simp)

theorem pop (d : Deepened p q c (i :: front) (data :: frames) rest) :
    ∃ s r, Pool.pop c q = .ok s r ∧ s.data = data ∧
      Deepened p r c front frames (i :: rest) := by
  have apart := (List.nodup_cons.mp d.once).1
  have named : (q.links.get c).place? size = some i := by
    cases d.leads with
    | step named _ => exact named
  have onward : q.Leads (q.segments.get i).link front (p.links.get c) := by
    cases d.leads with
    | step _ onward => exact onward
  obtain ⟨r, ran, w, links, segments⟩ := d.deep.pop named (d.not_mem_rest (by simp))
  have same := get_put_of_not_mem q.segments apart { q.segments.get i with link := q.freeHead }
  rw [← segments] at same
  have spilled := d.spilled
  rw [List.map_cons, List.cons.injEq] at spilled
  refine ⟨_, r, ran, spilled.1, ?_, w, ?_, ?_, fun e apart => ?_, fun j used => ?_⟩
  · simpa using d.flat
  · rw [links, Vector.get_put_self]
    exact onward.congr same
  · rw [← spilled.2]
    exact List.map_congr_left fun j inside => by rw [same j inside]
  · rw [links, Vector.get_put_of_ne _ apart, d.others e apart]
  · rw [segments, Vector.get_put_of_ne, d.used j used]
    rintro rfl
    exact d.not_mem_front used (by simp)

/-- The end of the calls' segments and the link register it stands for change together. -/
theorem relink (d : Deepened p q c front frames rest) (head : Link) :
    Deepened (p.relink c [] head) (q.relink c front head) c front frames rest where
  flat := d.flat.relink c (by simp) head
  deep := d.deep.relink c (fun _ => d.not_mem_rest) head
  leads := by
    have register : (p.relink c [] head).links.get c = head := by simp [Pool.relink]
    rw [register]
    exact d.leads.relink d.once head
  spilled := by simpa only [data_relink] using d.spilled
  others e apart := by
    rw [links_relink_of_ne _ c _ _ apart, links_relink_of_ne _ c _ _ apart, d.others e apart]
  used j used := by
    rw [inUse_relink] at used
    rw [segments_relink_of_not_mem q c front head (d.not_mem_front used),
      segments_relink_of_not_mem p c [] head (by simp), d.used j used]

theorem flattened (d : Deepened p q c [] frames rest) : p.SameButFree q := by
  obtain ⟨heads, marks, free⟩ := d.flat.agree d.deep
  refine ⟨heads.symm, Vector.eq_of_get fun e => ?_, Vector.eq_of_get fun j => (marks j).symm,
    fun j => ?_, d.used⟩
  · by_cases mine : c = e
    · subst mine
      generalize start : p.links.get c = l
      have leads := d.leads
      rw [start] at leads
      cases leads
      rfl
    · exact d.others e mine
  · cases used : p.inUse.get j with
    | true => rw [d.used j used]
    | false => exact (free j (d.flat.free_iff.mp used)).symm

end Deepened

/-- Calls that spill the given words, one after the other. -/
def pushCalls (core : CoreId) : List (Vector Word dataWords) → PoolM size n (Except Refusal Unit)
  | [] => return .ok ()
  | data :: more => do
    match ← push core data true false with
    | .error e => return .error e
    | .ok _ => pushCalls core more

/-- Returns from calls, with the words that they reload. -/
def popCalls (core : CoreId) : Nat → PoolM size n (List (Vector Word dataWords))
  | 0 => return []
  | count + 1 => do
    let s ← pop core
    return s.data :: (← popCalls core count)

namespace Deepened

theorem pushCalls (d : Deepened p q c front frames rest) (more : List (Vector Word dataWords))
    (enough : more.length ≤ rest.length) :
    ∃ r front', Pool.pushCalls c more q = .ok (.ok ()) r ∧
      Deepened p r c front' (more.reverse ++ frames) (rest.drop more.length) := by
  induction more generalizing q front frames rest with
  | nil => exact ⟨q, front, rfl, d⟩
  | cons data more ih =>
    cases rest with
    | nil => simp at enough
    | cons i rest =>
      obtain ⟨r, ran, d'⟩ := d.push data true false
      obtain ⟨r', front', ran', d''⟩ := ih d' (by simpa using enough)
      refine ⟨r', front', ?_, by simpa using d''⟩
      simp only [Pool.pushCalls, Action.bind_run, ran, ran']

theorem popCalls (d : Deepened p q c front frames rest) :
    ∃ r, Pool.popCalls c frames.length q = .ok frames r ∧
      Deepened p r c [] [] (front.reverse ++ rest) := by
  induction front generalizing q frames rest with
  | nil =>
    obtain rfl : frames = [] := d.spilled.symm
    exact ⟨q, rfl, d⟩
  | cons i front ih =>
    cases frames with
    | nil => exact absurd d.spilled (by simp)
    | cons data frames =>
      obtain ⟨s, r, ran, words, d'⟩ := d.pop
      obtain ⟨r', ran', d''⟩ := ih d'
      refine ⟨r', ?_, by simpa using d''⟩
      simp only [List.length_cons, Pool.popCalls, Action.bind_run, ran, ran', words,
        Action.pure_run]

end Deepened

end Pool

namespace Banks

open Storage Tasks

variable {size n : Nat} {s : Storage (Banks size n)} {c : Fin n} {task outgoing incoming : TaskId}
  {free : List (Fin size)}

/-- The live chain of a core starts with the lower and the upper context of a task that has room
below its stack pointer. -/
inductive Interrupted (s : Storage (Banks size n)) (c : Fin n) (task : TaskId) : Prop
  | intro (i j : Fin size) (lower : (s.context.pool.links.get c).place? size = some i)
      (lowerUsed : s.context.pool.inUse.get i = true)
      (upper : (s.context.pool.segments.get i).link.place? size = some j)
      (upperUsed : s.context.pool.inUse.get j = true)
      (room : s.tasks.Room task (s.context.pool.segments.get j).data[upperStackPointer - 1])

/-- A task has the head of a chain in use on its stack. -/
def Resumable (s : Storage (Banks size n)) (task : TaskId) : Prop :=
  ∃ head nesting i, s.tasks.Parks task head nesting ∧ head.place? size = some i ∧
    s.context.pool.inUse.get i = true

/-- Once a task is saved, it is suspended along with all that were before. -/
theorem Resumable.of_saved {ts : Tasks} (parked : Resumable { s with tasks := ts } outgoing)
    (others : ∀ other, other ≠ outgoing → ts.list[other]? = s.tasks.list[other]?)
    (suspended : incoming ≠ outgoing → Resumable s incoming) :
    Resumable { s with tasks := ts } incoming := by
  by_cases same : incoming = outgoing
  · rw [same]
    exact parked
  · obtain ⟨head, nesting, i, parks, named, used⟩ := suspended same
    exact ⟨head, nesting, i, parks.congr (others incoming same), named, used⟩

/-- A save does the same below any calls. -/
theorem save_below (interrupted : Interrupted s c task) (nesting : UInt32) :
    ∃ ts, (∀ q front frames rest (depth : TrapDepth),
        s.context.pool.Deepened q c front frames rest → front.length = depth.toNat →
        save c task nesting depth (withPool s q) = .ok () { withPool s q with tasks := ts }) ∧
      Resumable { s with tasks := ts } task ∧
      ∀ other, other ≠ task → ts.list[other]? = s.tasks.list[other]? := by
  obtain ⟨i, j, lower, lowerUsed, upper, upperUsed, room⟩ := interrupted
  obtain ⟨top, ts, pushed, parks, others, _⟩ :=
    pushHead_run room (s.context.pool.links.get c) nesting
  refine ⟨ts.setTop task top, fun q front frames rest depth d deep => ?_,
    ⟨_, nesting, i, parks, lower, lowerUsed⟩, fun other apart => ?_⟩
  · refine save_run_words (s := withPool s q) d.leads deep lower (j := j) ?_ ?_
    · simpa [d.used i lowerUsed] using upper
    · simpa [d.used j upperUsed] using pushed
  · rw [record_setTop _ apart, others other apart]

/-- A restore does the same below any calls, and changes the link at their end. -/
theorem restore_below (suspended : Resumable s task) (c : Fin n) :
    ∃ resumed ts head, ∀ q front frames rest (depth : TrapDepth),
      s.context.pool.Deepened q c front frames rest → front.length = depth.toNat →
      restore c task depth (withPool s q) =
        .ok resumed { withPool s (q.relink c front head) with tasks := ts } := by
  obtain ⟨head, nesting, i, parks, named, used⟩ := suspended
  refine ⟨⟨nesting, (s.context.pool.segments.get i).link.enabled⟩,
    s.tasks.setTop task ((s.tasks.top task).advance 2), head.address,
    fun q front frames rest depth d deep => ?_⟩
  have same := d.used i used
  have ran := restore_run_words (s := withPool s q) parks d.leads deep named (d.marked used)
    (d.not_mem_front used)
  rw [pool_withPool, same] at ran
  exact ran

/-- A task switch below calls that spill the words `frames`, and the words that their returns
reload. -/
def switchBelow (core : CoreId) (outgoing incoming : TaskId) (nesting : UInt32)
    (depth : TrapDepth) (frames : List (Vector Word dataWords)) :
    StorageM (Banks size n) (Except Refusal (Resumption × List (Vector Word dataWords))) := do
  match ← onContext (onPool (Pool.pushCalls core frames)) with
  | .error e => return .error e
  | .ok () =>
    save core outgoing nesting depth
    let resumed ← restore core incoming depth
    return .ok (resumed, ← onContext (onPool (Pool.popCalls core frames.length)))

/-- A switch from an interrupted task to a suspended one, or back to the same, leaves the same at
every depth, and every call gets back the words that it spilled. -/
theorem switch_depth_independent (w : s.context.pool.WellFormed free) {depth : TrapDepth}
    {frames : List (Vector Word dataWords)} (deep : frames.length = depth.toNat)
    (enough : depth.toNat ≤ free.length) (interrupted : Interrupted s c outgoing)
    (suspended : incoming ≠ outgoing → Resumable s incoming) (nesting : UInt32) :
    ∃ resumed flat q,
      (do save c outgoing nesting 0; restore c incoming 0) s = .ok resumed flat ∧
      switchBelow c outgoing incoming nesting depth frames s =
        .ok (.ok (resumed, frames.reverse)) (withPool flat q) ∧
      flat.context.pool.WellFormed free ∧ q.WellFormed free ∧
      flat.context.pool.SameButFree q := by
  obtain ⟨ts, saved, parked, others⟩ := save_below interrupted nesting
  obtain ⟨resumed, ts', head, restored⟩ := restore_below (parked.of_saved others suspended) c
  have flat := Pool.Deepened.refl w c
  obtain ⟨q, front, pushed, d⟩ := flat.pushCalls frames (by omega)
  rw [List.append_nil] at d
  have length : front.length = frames.length := by
    simpa using congrArg List.length d.spilled
  obtain ⟨r, popped, d'⟩ := (d.relink head).popCalls
  have pushedRun := onPool_run (s := s) pushed
  have poppedRun := onPool_run
    (s := { withPool s (q.relink c front head) with tasks := ts' }) popped
  have savedFlat := saved _ _ _ _ 0 flat rfl
  have restoredFlat := restored _ _ _ _ 0 flat rfl
  have savedDeep := saved _ _ _ _ depth d (length.trans deep)
  have restoredDeep := restored _ _ _ _ depth d (length.trans deep)
  have whole := d'.deep
  rw [← d.flat.path.unique w.path]
  refine ⟨resumed, { withPool s (s.context.pool.relink c [] head) with tasks := ts' }, r,
    ?_, ?_, d'.flat, whole, d'.flattened⟩
  · simp only [Action.bind_run]
    rw [show save c outgoing nesting 0 s = _ from savedFlat]
    exact restoredFlat
  · have restoredRun : restore c incoming depth { withPool s q with tasks := ts } =
        .ok resumed { withPool s (q.relink c front head) with tasks := ts' } := restoredDeep
    rw [List.length_reverse] at poppedRun
    simp only [switchBelow, Action.bind_run, pushedRun, savedDeep, restoredRun, poppedRun]
    rfl

/-- One task is interrupted and another suspended, each with two segments of six. -/
def twoTasks : Storage (Banks 6 1) where
  context := { pool := {
    segments := #v[{ link := (Link.ofIndex 1).withFlags true true },
      Pool.initialUpper (.stack 0 8), { link := (Link.ofIndex 3).withFlags true true }, {},
      { link := .ofIndex 5 }, {}]
    inUse := #v[true, true, true, true, false, false]
    freeHead := .ofIndex 4
    links := #v[.ofIndex 0] } }
  tasks := (((ofSizes #[8, 8]).write (.stack 1 6) (.ofUInt32 3)).write (.stack 1 7)
    (.ofUInt32 0)).setTop 1 (.stack 1 6)

/-- Below two calls a core switches from one task to the other. -/
theorem switch_depth_independent_two_calls : ∃ resumed flat q,
    (do save 0 0 3 0; restore 0 1 0) twoTasks = .ok resumed flat ∧
    switchBelow 0 0 1 3 2 [.replicate 15 .null, .replicate 15 .exitTrap] twoTasks =
      .ok (.ok (resumed, [.replicate 15 .exitTrap, .replicate 15 .null])) (withPool flat q) ∧
    flat.context.pool.WellFormed [4, 5] ∧ q.WellFormed [4, 5] ∧
    flat.context.pool.SameButFree q := by
  have w : twoTasks.context.pool.WellFormed [4, 5] :=
    ⟨by decide, by decide, by decide, by decide, by decide⟩
  have interrupted : Interrupted twoTasks (0 : Fin 1) 0 :=
    ⟨0, 1, by decide, by decide, by decide, by decide, 6, by decide +kernel, by decide +kernel,
      by decide +kernel⟩
  have suspended : Resumable twoTasks 1 :=
    ⟨.ofIndex 2, 0, 2, ⟨6, by decide +kernel, by decide +kernel, by decide +kernel⟩,
      by decide, by decide⟩
  exact switch_depth_independent w rfl (by decide) interrupted
    (fun _ => suspended) 3

end Banks

end Preempt
