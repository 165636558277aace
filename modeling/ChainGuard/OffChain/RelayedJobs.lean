import ChainGuard.OffChain.RelayQueue

/-! Runs of the relay queue: no job is lost, moved for another, handled too often or too early. -/
namespace ChainGuard.OffChain.RelayQueue
open History
set_option autoImplicit false

variable {T : Type} {o : QueueOptions} {p p' : Process T} {q : QueueState T} {a : Attempt T}
  {t : Transition (Process T) (Event T)} {hist : List (Transition (Process T) (Event T))}

/-! ## What a step does -/

structure Within (t : Transition (Process T) (Event T)) : Prop where
  not_accepts : ∀ id, ¬ Accepts t id
  not_restarts : ¬ Restarts t
  next : t.post.next = t.pre.next

/-- Everything that a step can do to the jobs. -/
inductive Did (o : QueueOptions) (t : Transition (Process T) (Event T)) : Prop
  | pushed (id : JsString) (payload : T) (now : ℕ) (hlabel : t.label = .enqueue id payload now)
      (hstate : t.post.state = { t.pre.state with
        jobs := t.pre.state.jobs ++ [{ id, payload, attempts := 0, nextAttemptAtMs := now, ref := t.pre.next }] })
      (hnext : t.post.next = t.pre.next + 1) (hrunning : t.post.running = t.pre.running)
  | idle (hwithin : Within t) (hstarted : started t = none) (hfinished : finished t = none)
      (hstate : t.post.state = t.pre.state) (hrunning : t.post.running = t.pre.running)
  | begun (a : Attempt T) (now : ℕ → ℕ) (hwithin : Within t) (hdue : t.pre.due now = some a)
      (hstarted : started t = some (a, now a.dueIndex)) (hfinished : finished t = none)
      (hstate : t.post.state = (t.pre.begin a).state) (hrunning : t.post.running = a :: t.pre.running)
  | thrown (a : Attempt T) (now : ℕ → ℕ) (message : JsString) (later : ℕ) (hwithin : Within t)
      (hdue : t.pre.due now = some a) (hstarted : started t = some (a, now a.dueIndex))
      (hfinished : finished t = some (a, .error message, later))
      (hstate : t.post.state = (t.pre.begin a).state.settle o a (.error message) later)
      (hrunning : t.post.running = t.pre.running)
  | settled (a : Attempt T) (result : Except JsString Unit) (now : ℕ) (hwithin : Within t) (hmem : a ∈ t.pre.running)
      (hstarted : started t = none) (hfinished : finished t = some (a, result, now))
      (hstate : t.post.state = t.pre.state.settle o a result now)
      (hrunning : t.post.running = t.pre.running.filter fun other => other.call ≠ a.call)
  | restarted (hlabel : t.label = .restart) (hstate : t.post.state = load t.pre.journal)
      (hnext : t.post.next = t.pre.next) (hrunning : t.post.running = [])

theorem did_of_pump (pump : Pump) (p₀ : Process T) (hpumped : pumped t = some pump) (hpost : t.post = p₀.pump o pump)
    (hsame : p₀ = { t.pre with stopped := p₀.stopped }) (haccepts : ∀ id, ¬ Accepts t id) (hrestart : ¬ Restarts t)
    (hfinished : finished t = pump.thrown.bind fun message =>
      (t.pre.due pump.now).map fun a => (a, .error message, pump.later)) : Did o t := by
  have hdue : p₀.due pump.now = t.pre.due pump.now := by
    rw [hsame]
    rfl
  have hstarted : started t = (t.pre.due pump.now).map fun a => (a, pump.now a.dueIndex) := by
    rw [started, hpumped, Option.bind_some]
  unfold Process.pump at hpost
  rw [hdue] at hpost
  cases hcall : t.pre.due pump.now with
  | none =>
    simp only [hcall, Option.map_none] at hpost hstarted hfinished
    refine .idle ⟨haccepts, hrestart, ?_⟩ hstarted ?_ ?_ ?_
    · rw [hpost, hsame]
    · rw [hfinished]
      cases pump.thrown <;> rfl
    · rw [hpost, hsame]
    · rw [hpost, hsame]
  | some a =>
    simp only [hcall, Option.map_some] at hpost hstarted hfinished
    cases hthrown : pump.thrown with
    | none =>
      simp only [hthrown, Option.bind_none] at hpost hfinished
      refine .begun a pump.now ⟨haccepts, hrestart, ?_⟩ hcall hstarted hfinished ?_ ?_
      · rw [hpost, hsame]
        rfl
      · rw [hpost, hsame]
        rfl
      · rw [hpost, hsame]
    | some message =>
      simp only [hthrown, Option.bind_some] at hpost hfinished
      refine .thrown a pump.now message pump.later ⟨haccepts, hrestart, ?_⟩ hcall hstarted hfinished ?_ ?_
      · rw [hpost, hsame]
        rfl
      · rw [hpost, hsame]
        rfl
      · rw [hpost, hsame]
        rfl

theorem not_accepts_of_label (hlabel : ∀ id payload now, t.label ≠ .enqueue id payload now) (id : JsString) :
    ¬ Accepts t id := by
  rintro ⟨payload, now, henqueue, _⟩
  exact hlabel id payload now henqueue

theorem not_restarts_of_label (hlabel : t.label ≠ .restart) : ¬ Restarts t := hlabel

theorem did_of_exec (hstep : exec o t.pre t.label = t.post) : Did o t := by
  obtain ⟨p, e, p'⟩ := t
  obtain rfl : exec o p e = p' := hstep
  cases e with
  | enqueue id payload now =>
    by_cases hseen : p.state.seen id
    · have hrefused : p.enqueue id payload now = (false, p) := by rw [Process.enqueue, if_pos hseen]
      have hexec : exec o p (.enqueue id payload now) = p := by rw [exec, hrefused]
      rw [hexec]
      refine .idle ⟨?_, not_restarts_of_label (by simp), rfl⟩ rfl rfl rfl rfl
      rintro id' ⟨payload', now', hlabel, haccepted⟩
      cases hlabel
      rw [hrefused] at haccepted
      cases haccepted
    · refine .pushed id payload now rfl ?_ ?_ ?_
      · simp only [exec, Process.enqueue, if_neg hseen, Process.persist]
      · simp only [exec, Process.enqueue, if_neg hseen, Process.persist]
      · simp only [exec, Process.enqueue, if_neg hseen, Process.persist]
  | start pump =>
    by_cases hstopped : p.stopped = true
    · refine did_of_pump pump { p with stopped := false } ?_ ?_ rfl (not_accepts_of_label (by simp)) (not_restarts_of_label (by simp)) ?_
      · simp only [pumped, if_pos hstopped]
      · simp only [exec, if_pos hstopped]
      · simp only [finished, pumped, if_pos hstopped, Option.bind_some]
    · have hexec : exec o p (.start pump) = p := by simp only [exec, if_neg hstopped]
      rw [hexec]
      refine .idle ⟨not_accepts_of_label (by simp), not_restarts_of_label (by simp), rfl⟩ ?_ ?_ rfl rfl
      · simp only [started, pumped, if_neg hstopped, Option.bind_none]
      · simp only [finished, pumped, if_neg hstopped, Option.bind_none]
  | tick pump =>
    by_cases hstopped : p.stopped = true
    · have hexec : exec o p (.tick pump) = p := by simp only [exec, if_pos hstopped]
      rw [hexec]
      refine .idle ⟨not_accepts_of_label (by simp), not_restarts_of_label (by simp), rfl⟩ ?_ ?_ rfl rfl
      · simp only [started, pumped, if_pos hstopped, Option.bind_none]
      · simp only [finished, pumped, if_pos hstopped, Option.bind_none]
    · refine did_of_pump pump p ?_ ?_ rfl (not_accepts_of_label (by simp)) (not_restarts_of_label (by simp)) ?_
      · simp only [pumped, if_neg hstopped]
      · simp only [exec, if_neg hstopped]
      · simp only [finished, pumped, if_neg hstopped, Option.bind_some]
  | settle call result now =>
    cases hfind : p.running.find? fun a => a.call = call with
    | none =>
      have hexec : exec o p (.settle call result now) = p := by simp only [exec, hfind]
      rw [hexec]
      exact .idle ⟨not_accepts_of_label (by simp), not_restarts_of_label (by simp), rfl⟩ rfl (by simp only [finished, hfind, Option.map_none]) rfl rfl
    | some a =>
      obtain ⟨hmem, hcall⟩ := find_running hfind
      refine .settled a result now ⟨not_accepts_of_label (by simp), not_restarts_of_label (by simp), ?_⟩ hmem rfl ?_ ?_ ?_
      · simp only [exec, hfind, Process.settle, Process.persist]
      · simp only [finished, hfind, Option.map_some]
      · simp only [exec, hfind, Process.settle, Process.persist]
      · simp only [exec, hfind, hcall]
  | stop => exact .idle ⟨not_accepts_of_label (by simp), not_restarts_of_label (by simp), rfl⟩ rfl rfl rfl rfl
  | restart => exact .restarted rfl rfl rfl rfl

/-! ## Held ids -/

section Held
variable {next : ℕ} {id : JsString}

theorem mem_keepLatest {ids : List JsString} (hle : ids.length ≤ MAX_COMPLETED_IDS) {last : JsString}
    (hmem : id ∈ ids ++ [last]) : id ∈ keepLatest (ids ++ [last]) ∨
      ∃ rest, ids ++ [last] = id :: rest ∧ MAX_COMPLETED_IDS ≤ rest.length ∧ keepLatest (ids ++ [last]) = rest := by
  have hcount : (ids ++ [last]).length = ids.length + 1 := List.length_append
  cases hall : ids ++ [last] with
  | nil =>
    rw [hall] at hcount
    cases hcount
  | cons oldest rest =>
    rw [hall] at hmem hcount
    rw [List.length_cons] at hcount
    by_cases hfull : MAX_COMPLETED_IDS ≤ rest.length
    · have hone : (oldest :: rest).length - MAX_COMPLETED_IDS = 1 := by
        rw [List.length_cons]
        omega
      have hkept : keepLatest (oldest :: rest) = rest := by rw [keepLatest, hone, List.drop_one, List.tail_cons]
      rcases List.mem_cons.mp hmem with rfl | hmem
      · exact .inr ⟨rest, rfl, hfull, hkept⟩
      · exact .inl (hkept.symm ▸ hmem)
    · have hzero : (oldest :: rest).length - MAX_COMPLETED_IDS = 0 := by
        rw [List.length_cons]
        omega
      refine .inl ?_
      rw [keepLatest, hzero, List.drop_zero]
      exact hmem

theorem mem_shiftOverlong {dead : List (DeadJob T)} {last : DeadJob T}
    (hmem : id ∈ (dead ++ [last]).map (·.id)) : id ∈ (shiftOverlong (dead ++ [last])).map (·.id) ∨
      ∃ oldest rest, dead ++ [last] = oldest :: rest ∧ oldest.id = id ∧ MAX_DEAD_JOBS ≤ rest.length ∧
        shiftOverlong (dead ++ [last]) = rest := by
  unfold shiftOverlong
  split
  · next hfull =>
    cases hall : dead ++ [last] with
    | nil => exact absurd hall (by simp)
    | cons oldest rest =>
      rw [hall, List.map_cons] at hmem
      rw [hall, List.length_cons] at hfull
      rcases List.mem_cons.mp hmem with rfl | hmem
      · exact .inr ⟨oldest, rest, rfl, rfl, Nat.le_of_lt_succ hfull, rfl⟩
      · exact .inl hmem
  · exact .inl hmem

theorem settle_seen (h : q.Sound next) (hat : q.At a) (result : Except JsString Unit) (now : ℕ) (hseen : q.seen id) :
    (q.settle o a result now).seen id ∨ q.Drops (q.settle o a result now) id := by
  have hmem := hat.ids_perm.mem_iff.mp (QueueState.mem_ids.mpr hseen)
  rw [List.mem_cons, List.mem_append, List.mem_append] at hmem
  unfold QueueState.settle
  cases result with
  | ok _ =>
    show (q.complete a).seen id ∨ q.Drops (q.complete a) id
    have hlatest : (q.complete a).completedIds = keepLatest (q.completedIds ++ [a.job.id]) := by
      rw [QueueState.complete]
    have hcases : id ∈ (q.jobs.eraseIdx a.dueIndex).map (·.id) ∨ id ∈ q.completedIds ++ [a.job.id] ∨ id ∈ q.deadIds := by
      rw [List.mem_append, List.mem_singleton]
      rcases hmem with hid | (hjob | hcompleted) | hdead
      · exact .inr (.inl (.inr hid))
      · exact .inl hjob
      · exact .inr (.inl (.inl hcompleted))
      · exact .inr (.inr hdead)
    rcases hcases with hjob | hcompleted | hdead
    · exact .inl (.inl hjob)
    · rcases mem_keepLatest h.completed_le hcompleted with hkept | ⟨rest, heq, hlength, hrest⟩
      · rw [← hlatest] at hkept
        exact .inl (.inr (.inl hkept))
      · rw [← hlatest] at hrest
        exact .inr (.completed a.job.id rest heq hlength hrest)
    · exact .inl (.inr (.inr hdead))
  | error message =>
    dsimp only
    split
    · have hcases : id ∈ (q.jobs.eraseIdx a.dueIndex).map (·.id) ∨ id ∈ q.completedIds ∨
          id ∈ (q.dead ++ [({ a.job with error := message } : DeadJob T)]).map (·.id) := by
        rw [List.map_append, List.mem_append, List.map_singleton, List.mem_singleton]
        rcases hmem with hid | (hjob | hcompleted) | hdead
        · exact .inr (.inr (.inr hid))
        · exact .inl hjob
        · exact .inr (.inl hcompleted)
        · exact .inr (.inr (.inl hdead))
      rcases hcases with hjob | hcompleted | hdead
      · exact .inl (.inl hjob)
      · exact .inl (.inr (.inl hcompleted))
      · rcases mem_shiftOverlong hdead with hkept | ⟨oldest, rest, heq, hid, hlength, hrest⟩
        · exact .inl (.inr (.inr hkept))
        · exact .inr (.dead _ oldest rest heq hid hlength hrest)
    · refine .inl (hseen.imp_left fun hjob => ?_)
      obtain ⟨job, hjobs, rfl⟩ := List.mem_map.mp hjob
      refine List.mem_map.mpr ⟨_, List.mem_map_of_mem hjobs, ?_⟩
      split
      · next href => rw [h.eq_of_ref hjobs hat.mem href]
      · rfl

theorem begin_ids (h : p.Sound) {now : ℕ → ℕ} (hdue : p.due now = some a) : (p.begin a).state.ids = p.state.ids := by
  obtain ⟨_, job, hget, heq, _⟩ := due_spec hdue
  obtain ⟨_, _, _, hjobs⟩ := begin_spec h hdue
  have hids : (p.begin a).state.jobIds = p.state.jobIds := by
    rw [QueueState.jobIds, hjobs, List.map_map]
    refine List.map_congr_left fun other hother => ?_
    simp only [Function.comp_apply]
    split
    · next href =>
      have hsame : other.ref = job.ref := href.trans (by rw [heq])
      rw [h.state.eq_of_ref hother (List.mem_of_getElem? hget) hsame, heq]
    · rfl
  show (p.begin a).state.jobIds ++ p.state.completedIds ++ p.state.deadIds = p.state.ids
  rw [hids]
  rfl

theorem step_seen (h : t.pre.Sound) (hdid : Did o t) (hseen : t.pre.state.seen id) :
    t.post.state.seen id ∨ Evicts t id := by
  unfold Evicts
  cases hdid with
  | pushed id' payload now _ hstate _ _ =>
    rw [hstate]
    refine .inl (hseen.imp_left fun hjob => ?_)
    exact List.mem_map.mpr ((List.mem_map.mp hjob).imp fun job hjob => ⟨List.mem_append_left _ hjob.1, hjob.2⟩)
  | idle _ _ _ hstate _ => exact .inl (hstate ▸ hseen)
  | begun a now _ hdue _ _ hstate _ =>
    refine .inl (QueueState.mem_ids.mp ?_)
    rw [hstate, begin_ids h hdue]
    exact QueueState.mem_ids.mpr hseen
  | thrown a now message later _ hdue _ _ hstate _ =>
    obtain ⟨hsound, hat, _, _⟩ := begin_spec h hdue
    have hbegun : (t.pre.begin a).state.seen id := by
      refine QueueState.mem_ids.mp ?_
      rw [begin_ids h hdue]
      exact QueueState.mem_ids.mpr hseen
    rw [hstate]
    refine (settle_seen hsound hat (.error message) later hbegun).imp_right fun hdrops => ?_
    -- the completed and the dead are as before the call
    cases hdrops with
    | completed last rest heq hlength hrest => exact .completed last rest heq hlength hrest
    | dead last oldest rest heq hid hlength hrest => exact .dead last oldest rest heq hid hlength hrest
  | settled a result now _ hmem _ _ hstate _ =>
    rw [hstate]
    exact settle_seen h.state (h.running_at hmem).2 result now hseen
  | restarted _ hstate _ _ =>
    refine .inl (QueueState.mem_ids.mp ?_)
    rw [hstate, h.journal.ids_eq]
    exact QueueState.mem_ids.mpr hseen

theorem sound (h : QueueRun o hist p) : p.Sound :=
  h.invariant (fun _ hinit => hinit ▸ Process.Sound.init) fun _ e _ hsound hstep => hstep ▸ exec_sound hsound e

theorem accepts_iff : Accepts t id ↔ ∃ payload now, t.label = .enqueue id payload now ∧ ¬ t.pre.state.seen id := by
  refine exists₂_congr fun payload now => and_congr_right fun _ => ?_
  unfold Process.enqueue
  split
  · next hseen => exact iff_of_false Bool.false_ne_true (not_not.mpr hseen)
  · next hunseen => exact iff_of_true rfl hunseen

theorem seen_of_since (h : QueueRun o hist p)
    (hsince : Since (fun t => ¬ Evicts t id) (fun t => Accepts t id) hist) : p.state.seen id := by
  refine h.relates (R := fun hist p => Since (fun t => ¬ Evicts t id) (fun t => Accepts t id) hist → p.state.seen id)
    ?_ ?_ hsince
  · exact fun _ _ hnone => absurd hnone (since_nil _ _)
  · intro hist p e p' hrun ih hstep hsince
    have hdid : Did o ⟨p, e, p'⟩ := did_of_exec hstep
    rcases hsince with haccepts | ⟨hkept, hsince⟩
    · cases hdid with
      | pushed id' payload now hlabel hstate _ _ =>
        obtain ⟨_, _, hlabel', _⟩ := haccepts
        cases hlabel.symm.trans hlabel'
        rw [show p'.state = _ from hstate]
        exact .inl (by simp [QueueState.jobIds])
      | restarted hlabel _ _ _ =>
        obtain ⟨_, _, hlabel', _⟩ := haccepts
        cases hlabel.symm.trans hlabel'
      | idle hwithin => exact absurd haccepts (hwithin.not_accepts id)
      | begun _ _ hwithin => exact absurd haccepts (hwithin.not_accepts id)
      | thrown _ _ _ _ hwithin => exact absurd haccepts (hwithin.not_accepts id)
      | settled _ _ _ hwithin => exact absurd haccepts (hwithin.not_accepts id)
    · exact (step_seen (sound hrun) hdid (ih hsince)).resolve_right hkept

end Held

/-! ## Attempts -/

/-- How often each job was handled in this process and when it last failed, against the jobs and the calls that run. -/
structure Tracks (o : QueueOptions) (count : ℕ → ℕ) (failure : ℕ → Option (ℕ × ℕ)) (q : QueueState T) (next : ℕ)
    (running : List (Attempt T)) : Prop where
  le : ∀ ref, count ref ≤ o.maxAttempts
  unknown : ∀ ref, next ≤ ref → count ref = 0 ∧ failure ref = none
  attempts : ∀ job ∈ q.jobs, count job.ref ≤ job.attempts
  /-- A job that was handled and is still there has an attempt left, or is being handled. -/
  left : ∀ job ∈ q.jobs, count job.ref = 0 ∨ job.attempts < o.maxAttempts ∨ ∃ a ∈ running, a.job.ref = job.ref
  due : ∀ job ∈ q.jobs, ∀ failedAt n, failure job.ref = some (failedAt, n) →
    job.nextAttemptAtMs = failedAt + backoff o n

section Tracks
variable {count : ℕ → ℕ} {failure : ℕ → Option (ℕ × ℕ)} {next : ℕ} {running : List (Attempt T)}

theorem Tracks.init : Tracks o (fun _ => 0) (fun _ => none) ({} : QueueState T) next [] :=
  ⟨fun _ => Nat.zero_le _, fun _ _ => ⟨rfl, rfl⟩, nofun, nofun, nofun⟩

theorem Tracks.push (h : Tracks o count failure q next running) {job : PersistedJob T} (href : job.ref = next) :
    Tracks o count failure { q with jobs := q.jobs ++ [job] } (next + 1) running := by
  obtain ⟨hzero, hnone⟩ := h.unknown job.ref href.ge
  refine ⟨h.le, fun ref hle => h.unknown ref (Nat.le_of_succ_le hle), fun other hother => ?_, fun other hother => ?_,
    fun other hother => ?_⟩
  · rcases List.mem_append.mp hother with hother | hother
    · exact h.attempts other hother
    · rw [List.mem_singleton.mp hother, hzero]
      exact Nat.zero_le _
  · rcases List.mem_append.mp hother with hother | hother
    · exact h.left other hother
    · rw [List.mem_singleton.mp hother]
      exact .inl hzero
  · rcases List.mem_append.mp hother with hother | hother
    · exact h.due other hother
    · rw [List.mem_singleton.mp hother, hnone]
      nofun

theorem Tracks.begin (h : Tracks o count failure p.state next []) (hsound : p.Sound) (hnext : p.next = next)
    {now : ℕ → ℕ} (hdue : p.due now = some a) :
    Tracks o (Function.update count a.job.ref (count a.job.ref + 1)) failure (p.begin a).state next [a] := by
  obtain ⟨_, job, hget, heq, _⟩ := due_spec hdue
  obtain ⟨_, _, _, hjobs⟩ := begin_spec hsound hdue
  have hmem : job ∈ p.state.jobs := List.mem_of_getElem? hget
  have href : a.job.ref = job.ref := by rw [heq]
  have hattempts : a.job.attempts = job.attempts + 1 := by rw [heq]
  have hcount : count job.ref + 1 ≤ o.maxAttempts := by
    have hpos := o.maxAttempts_pos
    have hle := h.attempts job hmem
    rcases h.left job hmem with hzero | hlt | ⟨a', ha', _⟩
    · omega
    · omega
    · cases ha'
  -- each job afterwards is that of the call, or one that was there before
  have hcases : ∀ other ∈ (p.begin a).state.jobs, other = a.job ∨ other ∈ p.state.jobs ∧ other.ref ≠ a.job.ref := by
    intro other hother
    rw [hjobs] at hother
    obtain ⟨before, hbefore, rfl⟩ := List.mem_map.mp hother
    split
    · exact .inl rfl
    · next hne => exact .inr ⟨hbefore, hne⟩
  refine ⟨fun ref => ?_, fun ref hle => ?_, fun other hother => ?_, fun other hother => ?_, fun other hother => ?_⟩
  · rw [Function.update_apply]
    split
    · rw [href]
      exact hcount
    · exact h.le ref
  · have hlt := hsound.state.refs_lt job hmem
    rw [Function.update_of_ne (by omega)]
    exact h.unknown ref hle
  · rcases hcases other hother with rfl | ⟨hother, hne⟩
    · rw [Function.update_self, href, hattempts]
      exact Nat.succ_le_succ (h.attempts job hmem)
    · rw [Function.update_of_ne hne]
      exact h.attempts other hother
  · rcases hcases other hother with rfl | ⟨hother, hne⟩
    · exact .inr (.inr ⟨a, List.mem_singleton_self a, rfl⟩)
    · rw [Function.update_of_ne hne]
      rcases h.left other hother with hzero | hlt | ⟨a', ha', _⟩
      · exact .inl hzero
      · exact .inr (.inl hlt)
      · cases ha'
  · rcases hcases other hother with rfl | ⟨hother, _⟩
    · intro failedAt n hfailure
      have hsame : a.job.nextAttemptAtMs = job.nextAttemptAtMs := by rw [heq]
      rw [hsame]
      exact h.due job hmem failedAt n (href ▸ hfailure)
    · exact h.due other hother

def recorded (a : Attempt T) (result : Except JsString Unit) (now : ℕ) (failure : ℕ → Option (ℕ × ℕ)) :
    ℕ → Option (ℕ × ℕ) :=
  match result with
  | .ok _ => failure
  | .error _ => Function.update failure a.job.ref (some (now, a.job.attempts))

theorem recorded_of_ne {result : Except JsString Unit} {now ref : ℕ} (hne : ref ≠ a.job.ref) :
    recorded a result now failure ref = failure ref := by
  unfold recorded
  split
  · rfl
  · rw [Function.update_of_ne hne]

/-- The other jobs keep what is recorded of them, and the job itself is gone, or postponed with attempts left. -/
theorem Tracks.settle (h : Tracks o count failure q next [a]) (hsound : q.Sound next) (hat : q.At a)
    (result : Except JsString Unit) (now : ℕ) :
    Tracks o count (recorded a result now failure) (q.settle o a result now) next [] := by
  have hcases : ∀ other ∈ (q.settle o a result now).jobs, other ∈ q.jobs ∧ other.ref ≠ a.job.ref ∨
      other.ref = a.job.ref ∧ other.attempts = a.job.attempts ∧ a.job.attempts < o.maxAttempts ∧
        (∃ message, result = .error message) ∧ other.nextAttemptAtMs = now + backoff o a.job.attempts := by
    intro other hother
    have herased : other ∈ q.jobs.eraseIdx a.dueIndex → other ∈ q.jobs ∧ other.ref ≠ a.job.ref := by
      intro hmem
      rw [hat.eraseIdx hsound, List.mem_filter] at hmem
      exact ⟨hmem.1, of_decide_eq_true hmem.2⟩
    unfold QueueState.settle at hother
    cases result with
    | ok _ => exact .inl (herased hother)
    | error message =>
      dsimp only at hother
      split at hother
      · exact .inl (herased hother)
      · next hleft =>
        obtain ⟨before, hbefore, rfl⟩ := List.mem_map.mp hother
        split
        · exact .inr ⟨rfl, rfl, Nat.lt_of_not_le hleft, ⟨message, rfl⟩, rfl⟩
        · next hne => exact .inl ⟨hbefore, hne⟩
  refine ⟨h.le, fun ref hle => ?_, fun other hother => ?_, fun other hother => ?_, fun other hother => ?_⟩
  · have hlt := hsound.refs_lt a.job hat.mem
    rw [recorded_of_ne (by omega)]
    exact h.unknown ref hle
  · rcases hcases other hother with ⟨hother, _⟩ | ⟨href, hattempts, _⟩
    · exact h.attempts other hother
    · rw [href, hattempts]
      exact h.attempts a.job hat.mem
  · rcases hcases other hother with ⟨hother, hne⟩ | ⟨_, hattempts, hlt, _⟩
    · rcases h.left other hother with hzero | hlt | ⟨a', ha', href⟩
      · exact .inl hzero
      · exact .inr (.inl hlt)
      · rw [List.mem_singleton.mp ha'] at href
        exact absurd href.symm hne
    · exact .inr (.inl (hattempts ▸ hlt))
  · intro failedAt n hfailure
    rcases hcases other hother with ⟨hother, hne⟩ | ⟨href, _, _, ⟨message, rfl⟩, hnext⟩
    · rw [recorded_of_ne hne] at hfailure
      exact h.due other hother failedAt n hfailure
    · rw [recorded, href, Function.update_self] at hfailure
      obtain ⟨rfl, rfl⟩ := Prod.mk.inj (Option.some.inj hfailure)
      exact hnext

/-- A new process has handled nothing, and knows from the journal when each job is due. -/
theorem Tracks.restart {q' : QueueState T} (h : Tracks o count failure q next running) (hsame : q'.Same q) :
    Tracks o (fun _ => 0) failure q' next [] := by
  refine ⟨fun _ => Nat.zero_le _, fun ref hle => ⟨rfl, (h.unknown ref hle).2⟩, fun _ _ => Nat.zero_le _,
    fun _ _ => .inl rfl, fun job hjob failedAt n hfailure => ?_⟩
  obtain ⟨job', hjob', href, hnext⟩ := hsame.mem hjob
  rw [← hnext]
  exact h.due job' hjob' failedAt n (href ▸ hfailure)

theorem Tracks.congr {q' : QueueState T} {running' : List (Attempt T)} (h : Tracks o count failure q next running)
    (hq : q' = q) (hrunning : running' = running) : Tracks o count failure q' next running' := by
  rwa [hq, hrunning]

end Tracks

/-! ### Histories -/

theorem handled_cons (ref : ℕ) : handled ref (t :: hist) =
    if Restarts t then 0
    else handled ref hist + if (started t).any fun start => start.1.job.ref = ref then 1 else 0 := by
  unfold handled
  by_cases hrestart : Restarts t
  · rw [if_pos hrestart, List.takeWhile_cons_of_neg (by simpa using hrestart)]
    rfl
  · rw [if_neg hrestart, List.takeWhile_cons_of_pos (by simpa using hrestart), List.countP_cons]

theorem handled_same (hrestart : ¬ Restarts t) (hstarted : started t = none) (ref : ℕ) :
    handled ref (t :: hist) = handled ref hist := by
  rw [handled_cons, if_neg hrestart, hstarted, if_neg (by simp)]
  rfl

theorem handled_started {reading : ℕ} (hrestart : ¬ Restarts t) (hstarted : started t = some (a, reading)) :
    (fun ref => handled ref (t :: hist)) =
      Function.update (fun ref => handled ref hist) a.job.ref (handled a.job.ref hist + 1) := by
  funext ref
  rw [handled_cons, if_neg hrestart, hstarted, Function.update_apply]
  by_cases heq : ref = a.job.ref
  · rw [if_pos heq, if_pos (by simp [heq]), heq]
  · rw [if_neg heq, if_neg (by simpa using Ne.symm heq)]
    rfl

theorem lastFailure_same (hfinished : finished t = none) (ref : ℕ) : lastFailure ref (t :: hist) = lastFailure ref hist := by
  simp only [lastFailure, List.findSome?_cons, hfinished]

theorem lastFailure_finished {result : Except JsString Unit} {now : ℕ} (hfinished : finished t = some (a, result, now)) :
    (fun ref => lastFailure ref (t :: hist)) = recorded a result now fun ref => lastFailure ref hist := by
  funext ref
  cases result with
  | ok _ => simp only [lastFailure, List.findSome?_cons, hfinished, recorded]
  | error message =>
    simp only [lastFailure, List.findSome?_cons, hfinished, recorded, Function.update_apply]
    by_cases heq : ref = a.job.ref
    · rw [if_pos heq, if_pos heq.symm]
    · rw [if_neg heq, if_neg (Ne.symm heq)]

theorem tracks (h : QueueRun o hist p) :
    Tracks o (fun ref => handled ref hist) (fun ref => lastFailure ref hist) p.state p.next p.running := by
  refine h.relates (R := fun hist p => Tracks o (fun ref => handled ref hist) (fun ref => lastFailure ref hist)
    p.state p.next p.running) ?_ ?_
  · rintro p rfl
    exact Tracks.init
  · intro hist p e p' hrun ih hstep
    have hsound := sound hrun
    cases did_of_exec (t := ⟨p, e, p'⟩) hstep with
    | pushed id payload now hlabel hstate hnext hrunning =>
      cases hlabel
      have hcount : ∀ ref, handled ref (⟨p, .enqueue id payload now, p'⟩ :: hist) = handled ref hist :=
        handled_same nofun rfl
      have hfailure : ∀ ref, lastFailure ref (⟨p, .enqueue id payload now, p'⟩ :: hist) = lastFailure ref hist :=
        lastFailure_same rfl
      simp only [hcount, hfailure]
      rw [show p'.state = _ from hstate, show p'.next = _ from hnext, show p'.running = _ from hrunning]
      exact ih.push rfl
    | idle hwithin hstarted hfinished hstate hrunning =>
      simp only [handled_same hwithin.not_restarts hstarted, lastFailure_same hfinished]
      rw [show p'.next = p.next from hwithin.next]
      exact ih.congr hstate hrunning
    | begun a now hwithin hdue hstarted hfinished hstate hrunning =>
      have hfree : p.running = [] := hsound.not_inFlight (due_spec hdue).1
      rw [hfree] at ih
      rw [handled_started hwithin.not_restarts hstarted, show p'.next = p.next from hwithin.next]
      simp only [lastFailure_same hfinished]
      exact (ih.begin hsound rfl hdue).congr hstate (hrunning.trans (congrArg _ hfree))
    | thrown a now message later hwithin hdue hstarted hfinished hstate hrunning =>
      have hfree : p.running = [] := hsound.not_inFlight (due_spec hdue).1
      obtain ⟨hbegun, hat, _, _⟩ := begin_spec hsound hdue
      rw [hfree] at ih
      rw [handled_started hwithin.not_restarts hstarted, lastFailure_finished hfinished,
        show p'.next = p.next from hwithin.next]
      exact ((ih.begin hsound rfl hdue).settle hbegun hat (.error message) later).congr hstate (hrunning.trans hfree)
    | settled a result now hwithin hmem hstarted hfinished hstate hrunning =>
      obtain ⟨hone, hat⟩ := hsound.running_at hmem
      have hrest : p'.running = [] := by
        rw [show p'.running = _ from hrunning, show (⟨p, e, p'⟩ : Transition _ _).pre.running = [a] from hone]
        simp
      rw [hone] at ih
      simp only [handled_same hwithin.not_restarts hstarted]
      rw [lastFailure_finished hfinished, show p'.next = p.next from hwithin.next]
      exact (ih.settle hsound.state hat result now).congr hstate hrest
    | restarted hlabel hstate hnext hrunning =>
      cases hlabel
      have hcount : ∀ ref, handled ref (⟨p, .restart, p'⟩ :: hist) = 0 := fun ref => by
        rw [handled_cons]
        exact if_pos rfl
      have hfailure : ∀ ref, lastFailure ref (⟨p, .restart, p'⟩ :: hist) = lastFailure ref hist := lastFailure_same rfl
      simp only [hcount, hfailure]
      rw [show p'.next = p.next from hnext]
      exact (ih.restart hsound.journal).congr hstate hrunning

/-! ## Moves -/

theorem settle_moves {next : ℕ} (hsound : q.Sound next) (hat : q.At a) (result : Except JsString Unit) (now : ℕ) :
    Moves o a q (q.settle o a result now) result now := by
  unfold QueueState.settle
  cases result with
  | ok _ =>
    refine .completed ?_
    rw [← hat.eraseIdx hsound]
    rfl
  | error message =>
    dsimp only
    split
    · next hspent =>
      refine .dead hspent ?_
      rw [← hat.eraseIdx hsound]
      rfl
    · next hleft => exact .postponed (Nat.lt_of_not_le hleft) rfl

theorem begin_moves {q' : QueueState T} {result : Except JsString Unit} {now : ℕ}
    (hjobs : (p.begin a).state.jobs = p.state.jobs.map fun other => if other.ref = a.job.ref then a.job else other)
    (h : Moves o a (p.begin a).state q' result now) : Moves o a p.state q' result now := by
  have hfilter : ((p.begin a).state.jobs.filter fun job => job.ref ≠ a.job.ref) =
      p.state.jobs.filter fun job => job.ref ≠ a.job.ref := by
    rw [hjobs, List.filter_map]
    have hkeeps : (fun job : PersistedJob T => decide (job.ref ≠ a.job.ref)) ∘
        (fun other => if other.ref = a.job.ref then a.job else other) = fun job => decide (job.ref ≠ a.job.ref) := by
      funext other
      simp only [Function.comp_apply]
      split
      · next heq => simp [heq]
      · rfl
    rw [hkeeps]
    refine (List.map_congr_left fun other hother => if_neg ?_).trans (List.map_id _)
    exact of_decide_eq_true (List.mem_filter.mp hother).2
  cases h with
  | completed heq =>
    rw [hfilter] at heq
    exact .completed heq
  | dead hspent heq =>
    rw [hfilter] at heq
    exact .dead hspent heq
  | postponed hleft heq =>
    refine .postponed hleft ?_
    rw [heq, hjobs, List.map_map]
    congr 1
    refine List.map_congr_left fun other _ => ?_
    simp only [Function.comp_apply]
    split
    · rw [if_pos rfl]
    · rfl

theorem step_moves (h : t.pre.Sound) (hdid : Did o t) {result : Except JsString Unit} {now : ℕ}
    (hfinished : finished t = some (a, result, now)) :
    (∃ job ∈ t.pre.state.jobs, job.ref = a.job.ref ∧ job.id = a.job.id) ∧
      Moves o a t.pre.state t.post.state result now := by
  cases hdid with
  | pushed _ _ _ hlabel _ _ _ => simp [finished, pumped, hlabel] at hfinished
  | idle _ _ hnone _ _ => simp [hnone] at hfinished
  | begun _ _ _ _ _ hnone _ _ => simp [hnone] at hfinished
  | thrown a' now' message later _ hdue _ hfinished' hstate _ =>
    obtain ⟨rfl, rfl, rfl⟩ : a' = a ∧ .error message = result ∧ later = now := by
      simpa only [Option.some.injEq, Prod.mk.injEq] using hfinished'.symm.trans hfinished
    obtain ⟨_, job, hget, heq, _⟩ := due_spec hdue
    obtain ⟨hbegun, hat, _, hjobs⟩ := begin_spec h hdue
    refine ⟨⟨job, List.mem_of_getElem? hget, by rw [heq], by rw [heq]⟩, ?_⟩
    rw [hstate]
    exact begin_moves hjobs (settle_moves hbegun hat _ _)
  | settled a' result' now' _ hmem _ hfinished' hstate _ =>
    obtain ⟨rfl, rfl, rfl⟩ : a' = a ∧ result' = result ∧ now' = now := by
      simpa only [Option.some.injEq, Prod.mk.injEq] using hfinished'.symm.trans hfinished
    have hat := (h.running_at hmem).2
    refine ⟨⟨_, hat.mem, rfl, rfl⟩, ?_⟩
    rw [hstate]
    exact settle_moves h.state hat _ _
  | restarted hlabel _ _ _ => simp [finished, pumped, hlabel] at hfinished

/-! ## The queue -/

theorem started_spec {reading : ℕ} (h : started t = some (a, reading)) :
    ∃ now, t.pre.due now = some a ∧ reading = now a.dueIndex := by
  obtain ⟨pump, _, hcall⟩ := Option.bind_eq_some_iff.mp h
  obtain ⟨a', hdue, heq⟩ := Option.map_eq_some_iff.mp hcall
  obtain ⟨rfl, rfl⟩ := Prod.mk.inj heq
  exact ⟨pump.now, hdue, rfl⟩

/-- No job is lost, whatever is enqueued, settles, stops or restarts in whatever order. -/
theorem queue_conserves (h : QueueRun o hist p) : Conserves o hist p where
  held := fun id hsince => (sound h).state.holdsOnce (seen_of_since h hsince)
  moves := by
    intro t ht a result now hfinished
    obtain ⟨_, _, hrun, hstep⟩ := h.of_mem ht
    exact step_moves (sound hrun) (did_of_exec hstep) hfinished
  apart := by
    constructor
    · rcases (sound h).running with hnone | ⟨a, hone, _, _⟩
      · simp [hnone]
      · simp [hone]
    · intro t ht hstarted
      obtain ⟨_, _, hrun, _⟩ := h.of_mem ht
      obtain ⟨⟨a, reading⟩, hstarted⟩ := Option.isSome_iff_exists.mp hstarted
      obtain ⟨now, hdue, _⟩ := started_spec hstarted
      exact (sound hrun).not_inFlight (due_spec hdue).1
  handled_le := (tracks h).le
  elapsed := by
    intro t earlier hsuffix a reading hstarted failedAt attempts hfailure
    obtain ⟨hrun, _⟩ := h.suffix_step hsuffix
    obtain ⟨now, hdue, rfl⟩ := started_spec hstarted
    obtain ⟨_, job, hget, heq, hready⟩ := due_spec hdue
    have href : a.job.ref = job.ref := by rw [heq]
    have hnext := (tracks hrun).due job (List.mem_of_getElem? hget) failedAt attempts (href ▸ hfailure)
    rw [← hnext]
    exact hready
  fresh := by
    intro t _ id hseen haccepts
    obtain ⟨_, _, _, hunseen⟩ := accepts_iff.mp haccepts
    exact hunseen hseen

/-- Newest first: a job fails once while another is enqueued, and is completed by the next process. -/
def relayed : List (Event Unit) :=
  [.settle 1 (.ok ()) 700, .start { now := fun _ => 600 }, .restart, .settle 0 (.error (js "timeout")) 90,
    .enqueue (js "b") () 80, .start { now := fun _ => 70 }, .enqueue (js "a") () 60]

theorem queue_conserves_relayed :
    Conserves {} (executed (exec {}) {} relayed).1 (executed (exec {}) {} relayed).2 ∧
      (executed (exec {}) {} relayed).2.state.jobIds = [js "b"] ∧
      (executed (exec {}) {} relayed).2.state.completedIds = [js "a"] :=
  ⟨queue_conserves (executed_run (by rfl) (fun _ _ => by rfl) _), by decide +kernel, by decide +kernel⟩

end ChainGuard.OffChain.RelayQueue
