import ChainGuard.OffChain.GuardianRelay

/-! Which notifications reach the queue: one for each reachable guardian of an event, once the registry has
answered for it. -/
namespace ChainGuard.OffChain.GuardianRelay
open History
set_option autoImplicit false

/-! ## Ids of jobs -/

theorem js_noColon_evm : colon ∉ js "evm" := by decide

theorem js_noColon_soroban : colon ∉ js "soroban" := by decide

theorem eventId_append_inj {id id' : EventId} {g g' : JsString}
    (h : id.string ++ colon :: g = id'.string ++ colon :: g') : id.string = id'.string ∧ g = g' := by
  have hne : js "evm" ≠ js "soroban" := by decide
  cases id with
  | evm contract block index =>
    cases id' with
    | evm contract' block' index' =>
      simp only [EventId.string, joinColon, List.append_assoc, List.cons_append] at h ⊢
      obtain ⟨_, h⟩ := cut_first js_noColon_evm js_noColon_evm h
      obtain ⟨hcontract, h⟩ := cut_first contract.noColon contract'.noColon h
      obtain ⟨hblock, h⟩ := cut_first (decimal_noColon block) (decimal_noColon block') h
      obtain ⟨hindex, h⟩ := cut_first (decimal_noColon index) (decimal_noColon index') h
      exact ⟨by rw [hcontract, hblock, hindex], h⟩
    | soroban contract' event' =>
      simp only [EventId.string, joinColon, List.append_assoc, List.cons_append] at h
      exact (hne (cut_first js_noColon_evm js_noColon_soroban h).1).elim
  | soroban contract event =>
    cases id' with
    | evm contract' block' index' =>
      simp only [EventId.string, joinColon, List.append_assoc, List.cons_append] at h
      exact (hne (cut_first js_noColon_evm js_noColon_soroban h.symm).1).elim
    | soroban contract' event' =>
      simp only [EventId.string, joinColon, List.append_assoc, List.cons_append] at h ⊢
      obtain ⟨_, h⟩ := cut_first js_noColon_soroban js_noColon_soroban h
      obtain ⟨hcontract, h⟩ := cut_first contract.noColon contract'.noColon h
      obtain ⟨hevent, h⟩ := cut_first event.noColon event'.noColon h
      exact ⟨by rw [hcontract, hevent], h⟩

/-! ## Jobs -/

section Jobs
variable {cfg : Config} {ambient : Ambient} {event : AccessRequestEvent} {contacts : List GuardianContact}

/-- The public key is absent, or a valid one. -/
def GuardianContact.KeyOk (contact : GuardianContact) : Prop :=
  ∀ publicKey, truthy contact.publicKey = some publicKey → (bufferFromBase64 publicKey).length = PUBLIC_KEY_LENGTH

/-- What a job is made from its contact. -/
structure JobOf (cfg : Config) (event : AccessRequestEvent) (contact : GuardianContact) (job : DispatchJob) : Prop where
  id : job.id = jobId cfg event contact
  eventId : job.eventId = event.id.string
  contact : job.contact = contact

theorem encryptForGuardian_cases (random publicKey : JsString) (payload : AccessRequestNotification) :
    (∃ envelope, encryptForGuardian cfg random publicKey payload = .ok envelope) ∧
        (bufferFromBase64 publicKey).length = PUBLIC_KEY_LENGTH ∨
      (∃ e, encryptForGuardian cfg random publicKey payload = .error e) ∧
        (bufferFromBase64 publicKey).length ≠ PUBLIC_KEY_LENGTH := by
  unfold encryptForGuardian
  by_cases hzero : (bufferFromBase64 publicKey).length = 0
  · exact .inr ⟨⟨_, if_pos hzero⟩, by rw [hzero]; decide⟩
  · by_cases hlength : (bufferFromBase64 publicKey).length = PUBLIC_KEY_LENGTH
    · exact .inl ⟨⟨_, (if_neg hzero).trans (if_neg (not_not.mpr hlength))⟩, hlength⟩
    · exact .inr ⟨⟨_, (if_neg hzero).trans (if_pos hlength)⟩, hlength⟩

theorem buildJob_cases (contact : GuardianContact) :
    (∃ job, buildJob cfg ambient event contact = .ok job ∧ JobOf cfg event contact job) ∧ contact.KeyOk ∨
      (∃ e, buildJob cfg ambient event contact = .error e) ∧ ¬ contact.KeyOk := by
  unfold buildJob encryptedPayload
  cases hkey : truthy contact.publicKey with
  | none =>
    refine .inl ⟨⟨_, rfl, rfl, rfl, rfl⟩, ?_⟩
    intro publicKey hpublicKey
    cases hkey.symm.trans hpublicKey
  | some publicKey =>
    rcases @encryptForGuardian_cases cfg (ambient.random contact) publicKey (buildNotification cfg event) with
      ⟨⟨envelope, henvelope⟩, hlength⟩ | ⟨⟨e, herror⟩, hlength⟩
    · simp only [henvelope]
      refine .inl ⟨⟨_, rfl, rfl, rfl, rfl⟩, ?_⟩
      intro publicKey' hpublicKey'
      cases hkey.symm.trans hpublicKey'
      exact hlength
    · simp only [herror]
      exact .inr ⟨⟨e, rfl⟩, fun hok => hlength (hok publicKey hkey)⟩

theorem buildJobs_cases : (∃ jobs, buildJobs cfg ambient event contacts = .ok jobs ∧
      List.Forall₂ (JobOf cfg event) (contacts.filter (isReachable cfg)) jobs ∧
      ∀ c ∈ contacts, isReachable cfg c = true → c.KeyOk) ∨
    (∃ e, buildJobs cfg ambient event contacts = .error e) ∧ ∃ c ∈ contacts, isReachable cfg c = true ∧ ¬ c.KeyOk := by
  induction contacts with
  | nil => exact .inl ⟨[], rfl, .nil, nofun⟩
  | cons contact contacts ih =>
    rw [buildJobs]
    by_cases hreachable : isReachable cfg contact = true
    · rw [if_pos hreachable, List.filter_cons_of_pos hreachable]
      rcases @buildJob_cases cfg ambient event contact with
        ⟨⟨job, hjob, hof⟩, hok⟩ | ⟨⟨e, hjob⟩, hbad⟩
      · rcases ih with ⟨jobs, hjobs, hforall, hkeys⟩ | ⟨⟨e, hjobs⟩, c, hc, hbad⟩
        · refine .inl ⟨job :: jobs, by rw [hjob, hjobs]; rfl, .cons hof hforall, ?_⟩
          intro c hc hcr
          rcases List.mem_cons.mp hc with rfl | hc
          · exact hok
          · exact hkeys c hc hcr
        · exact .inr ⟨⟨e, by rw [hjob, hjobs]; rfl⟩, c, List.mem_cons_of_mem _ hc, hbad⟩
      · exact .inr ⟨⟨e, by rw [hjob]; rfl⟩, contact, List.mem_cons_self .., hreachable, hbad⟩
    · rw [if_neg hreachable, List.filter_cons_of_neg hreachable]
      rcases ih with ⟨jobs, hjobs, hforall, hkeys⟩ | ⟨herror, c, hc, hbad⟩
      · refine .inl ⟨jobs, hjobs, hforall, ?_⟩
        intro c hc hcr
        rcases List.mem_cons.mp hc with rfl | hc
        · exact (hreachable hcr).elim
        · exact hkeys c hc hcr
      · exact .inr ⟨herror, c, List.mem_cons_of_mem _ hc, hbad⟩

end Jobs

/-! ## The queue -/

section Queue
variable {cfg : Config}

theorem mem_of_mem_keepLatest {ids : List JsString} {id : JsString} (h : id ∈ keepLatest ids) : id ∈ ids := by
  unfold keepLatest at h
  exact List.mem_of_mem_drop h

theorem mem_of_mem_shiftOverlong {dead : List (PersistedJob × JsString)} {job : PersistedJob × JsString}
    (h : job ∈ shiftOverlong dead) : job ∈ dead := by
  unfold shiftOverlong at h
  split at h
  · exact List.mem_of_mem_tail h
  · exact h

theorem attempt_known {now dueIndex : ℕ} {job : PersistedJob} {delivery : Except JsString Unit} {q : QueueState}
    {id : JsString} (hjob : job.id ∈ q.jobs.map PersistedJob.id) (h : (q.attempt cfg now dueIndex job delivery).known id) :
    q.known id := by
  have herase : ∀ id, id ∈ (q.jobs.eraseIdx dueIndex).map PersistedJob.id → q.known id :=
    fun id hid => .inl (((List.eraseIdx_sublist q.jobs dueIndex).map PersistedJob.id).subset hid)
  unfold QueueState.attempt at h
  cases delivery with
  | ok u =>
    simp only [QueueState.complete, QueueState.known] at h
    rcases h with hkept | hcompleted | hdead
    · exact herase id hkept
    · rcases List.mem_append.mp (mem_of_mem_keepLatest hcompleted) with hold | hlast
      · exact .inr (.inl hold)
      · rw [List.mem_singleton.mp hlast]
        exact .inl hjob
    · exact .inr (.inr hdead)
  | error message =>
    dsimp only at h
    split at h
    · rcases h with hkept | hcompleted | hdead
      · exact herase id hkept
      · exact .inr (.inl hcompleted)
      · obtain ⟨other, hother, rfl⟩ := List.mem_map.mp hdead
        rcases List.mem_append.mp (mem_of_mem_shiftOverlong hother) with hold | hlast
        · exact .inr (.inr (List.mem_map_of_mem hold))
        · rw [List.mem_singleton.mp hlast]
          exact .inl hjob
    · rcases h with hkept | hcompleted | hdead
      · obtain ⟨other, hother, rfl⟩ := List.mem_map.mp hkept
        rcases List.mem_or_eq_of_mem_set hother with hold | rfl
        · exact .inl (List.mem_map_of_mem hold)
        · exact .inl hjob
      · exact .inr (.inl hcompleted)
      · exact .inr (.inr hdead)

theorem pump_known {now : ℕ} {delivery : Except JsString Unit} {q : QueueState} {id : JsString}
    (h : (q.pump cfg now delivery).known id) : q.known id := by
  unfold QueueState.pump at h
  split at h
  · exact h
  · split at h
    · exact h
    · next job hjob =>
      have hmem : job.id ∈ q.jobs.map PersistedJob.id := List.mem_map_of_mem (List.mem_of_getElem? hjob)
      exact @attempt_known cfg _ _ { job with attempts := job.attempts + 1 } _ q _ hmem h

def JobFor (cfg : Config) (eventId guardian : JsString) (job : DispatchJob) : Prop :=
  job.eventId = eventId ∧ cfg.toLowerCase job.contact.guardian = guardian

instance (eventId guardian : JsString) : DecidablePred (JobFor cfg eventId guardian) :=
  fun _ => inferInstanceAs (Decidable (_ ∧ _))

def enqueuedFor (cfg : Config) (s : GuardianRelayer) (eventId guardian : JsString) : ℕ :=
  s.queued.countP fun job => JobFor cfg eventId guardian job

/-- Jobs are known by their ids, and each was enqueued once. -/
structure Sound (cfg : Config) (s : GuardianRelayer) : Prop where
  known : ∀ id, s.queue.known id → id ∈ s.queued.map DispatchJob.id
  ids : ∀ job ∈ s.queued, ∃ event : EventId, job.eventId = event.string ∧
    job.id = event.string ++ colon :: cfg.toLowerCase job.contact.guardian
  nodup : (s.queued.map DispatchJob.id).Nodup

/-- After some jobs of a new event: what they add, and that all of them are known. -/
structure Enqueuing (cfg : Config) (event : AccessRequestEvent) (s s' : GuardianRelayer) : Prop where
  sound : Sound cfg s'
  seen : s'.seen = s.seen
  added : ∃ new, s'.queued = s.queued ++ new ∧
    ∀ job ∈ new, job.eventId = event.id.string ∧ s'.queue.known job.id

theorem push_known {q : QueueState} {now : ℕ} {id id' : JsString} {payload : DispatchJob} :
    (q.push now id payload).known id' ↔ q.known id' ∨ id' = id := by
  simp only [QueueState.known, QueueState.push, List.map_append, List.map_cons, List.map_nil, List.mem_append,
    List.mem_singleton]
  tauto

theorem Enqueuing.next {event : AccessRequestEvent} {s s' : GuardianRelayer} (h : Enqueuing cfg event s s')
    (hnew : ∀ job ∈ s.queued, job.eventId ≠ event.id.string) {contact : GuardianContact} {job : DispatchJob}
    (hof : JobOf cfg event contact job) (now : ℕ) : Enqueuing cfg event s (s'.enqueue now job) ∧
      job.id ∈ (s'.enqueue now job).queued.map DispatchJob.id := by
  obtain ⟨new, hqueued, hadded⟩ := h.added
  unfold GuardianRelayer.enqueue
  split
  · next hknown => exact ⟨h, h.sound.known _ hknown⟩
  · next hunknown =>
    have hfresh : job.id ∉ s'.queued.map DispatchJob.id := by
      intro hmem
      obtain ⟨other, hother, hid⟩ := List.mem_map.mp hmem
      rw [hqueued] at hother
      rcases List.mem_append.mp hother with hold | hnewer
      · obtain ⟨event', heventId, hid'⟩ := h.sound.ids other (hqueued ▸ List.mem_append_left _ hold)
        have hsame := (eventId_append_inj (hid'.symm.trans (hid.trans hof.id))).1
        exact hnew other hold (heventId.trans hsame)
      · exact hunknown (hid ▸ (hadded other hnewer).2)
    refine ⟨⟨⟨?_, ?_, ?_⟩, h.seen, new ++ [job], ?_, ?_⟩, ?_⟩
    · intro id hid
      rw [List.map_append, List.mem_append]
      rcases push_known.mp hid with hold | rfl
      · exact .inl (h.sound.known id hold)
      · exact .inr (List.mem_singleton.mpr rfl)
    · intro other hother
      rcases List.mem_append.mp hother with hold | hlast
      · exact h.sound.ids other hold
      · rw [List.mem_singleton.mp hlast]
        exact ⟨event.id, hof.eventId, by rw [hof.id, hof.contact]; rfl⟩
    · rw [List.map_append]
      refine List.Nodup.append h.sound.nodup (List.nodup_singleton _) ?_
      intro id hid hlast
      rw [List.mem_singleton.mp hlast] at hid
      exact hfresh hid
    · simp only [hqueued, List.append_assoc]
    · intro other hother
      rcases List.mem_append.mp hother with hold | hlast
      · exact ⟨(hadded other hold).1, push_known.mpr (.inl (hadded other hold).2)⟩
      · rw [List.mem_singleton.mp hlast]
        exact ⟨hof.eventId, push_known.mpr (.inr rfl)⟩
    · rw [List.map_append, List.mem_append]
      exact .inr (List.mem_singleton.mpr rfl)

theorem Enqueuing.all {event : AccessRequestEvent} {s : GuardianRelayer}
    (hnew : ∀ job ∈ s.queued, job.eventId ≠ event.id.string) (now : ℕ) {contacts : List GuardianContact}
    {jobs : List DispatchJob} (hjobs : List.Forall₂ (JobOf cfg event) contacts jobs) {s' : GuardianRelayer}
    (h : Enqueuing cfg event s s') : Enqueuing cfg event s (jobs.foldl (GuardianRelayer.enqueue now) s') ∧
      (∀ id ∈ s'.queued.map DispatchJob.id,
        id ∈ (jobs.foldl (GuardianRelayer.enqueue now) s').queued.map DispatchJob.id) ∧
      ∀ c ∈ contacts, jobId cfg event c ∈ (jobs.foldl (GuardianRelayer.enqueue now) s').queued.map DispatchJob.id := by
  induction hjobs generalizing s' with
  | nil => exact ⟨h, fun _ hid => hid, nofun⟩
  | @cons contact job contacts jobs hof _ ih =>
    obtain ⟨hnext, hmem⟩ := h.next hnew hof now
    obtain ⟨hall, hkept, hadded⟩ := ih hnext
    rw [List.foldl_cons]
    refine ⟨hall, fun id hid => hkept id ?_, ?_⟩
    · unfold GuardianRelayer.enqueue
      split
      · exact hid
      · rw [List.map_append]
        exact List.mem_append_left _ hid
    · intro c hc
      rcases List.mem_cons.mp hc with rfl | hc
      · exact hof.id ▸ hkept _ hmem
      · exact hadded c hc

end Queue

/-! ## Runs -/

section Runs
variable {cfg : Config} {hist : List (Transition GuardianRelayer Happening)} {s s' : GuardianRelayer}

def Reports (id : JsString) (t : Transition GuardianRelayer Happening) : Prop :=
  ∃ event answer ambient, t.label = .report event answer ambient ∧ event.id.string = id

def Answered (id : JsString) (t : Transition GuardianRelayer Happening) : Prop :=
  ∃ event raw ambient, t.label = .report event (some raw) ambient ∧ event.id.string = id

/-- A reachable contact whose public key is absent or valid. -/
def Eligible (cfg : Config) (contact : GuardianContact) : Prop := isReachable cfg contact = true ∧ contact.KeyOk

structure Delivered (cfg : Config) (hist : List (Transition GuardianRelayer Happening)) (s : GuardianRelayer) : Prop where
  /-- From the first report of an event that the registry answers at. -/
  each : ∀ t earlier event raw ambient, t :: earlier <:+ hist → t.label = .report event (some raw) ambient →
    (∀ t' ∈ earlier, ¬ Answered event.id.string t') → ∀ c ∈ normalizeContacts cfg raw, Eligible cfg c →
      enqueuedFor cfg s event.id.string (cfg.toLowerCase c.guardian) = 1
  once : ∀ eventId guardian, enqueuedFor cfg s eventId guardian ≤ 1

structure Remembers (cfg : Config) (hist : List (Transition GuardianRelayer Happening)) (s : GuardianRelayer) : Prop where
  sound : Sound cfg s
  seen : ∀ id, id ∈ s.seen ↔ ∃ t ∈ hist, Reports id t
  answered : ∀ job ∈ s.queued, ∃ t ∈ hist, Answered job.eventId t

/-- What the first report of an event enqueues. -/
inductive Enqueues (cfg : Config) (event : AccessRequestEvent) (s s' : GuardianRelayer) :
    Option (List (Option RegistryEntry)) → Prop
  | unanswered (hqueued : s'.queued = s.queued) : Enqueues cfg event s s' none
  | refused {raw : List (Option RegistryEntry)} (hqueued : s'.queued = s.queued)
      (hbad : ∃ c ∈ normalizeContacts cfg raw, isReachable cfg c = true ∧ ¬ c.KeyOk) :
      Enqueues cfg event s s' (some raw)
  | all {raw : List (Option RegistryEntry)} {new : List DispatchJob} (hqueued : s'.queued = s.queued ++ new)
      (hnew : ∀ job ∈ new, job.eventId = event.id.string)
      (hkeys : ∀ c ∈ normalizeContacts cfg raw, isReachable cfg c = true → c.KeyOk)
      (heach : ∀ c ∈ normalizeContacts cfg raw, isReachable cfg c = true →
        jobId cfg event c ∈ s'.queued.map DispatchJob.id) : Enqueues cfg event s s' (some raw)

theorem handleEvent_enqueues (h : Sound cfg s) {event : AccessRequestEvent}
    (hnew : ∀ job ∈ s.queued, job.eventId ≠ event.id.string) (answer : Option (List (Option RegistryEntry)))
    (ambient : Ambient) : (handleEvent cfg ambient event answer s).seen = s.seen ∧
      Sound cfg (handleEvent cfg ambient event answer s) ∧
      Enqueues cfg event s (handleEvent cfg ambient event answer s) answer := by
  unfold handleEvent
  cases answer with
  | none => exact ⟨rfl, ⟨h.known, h.ids, h.nodup⟩, .unanswered rfl⟩
  | some raw =>
    rcases @buildJobs_cases cfg ambient event (normalizeContacts cfg raw)
      with ⟨jobs, hjobs, hforall, hkeys⟩ | ⟨⟨e, herror⟩, hbad⟩
    · simp only [hjobs]
      have hstart : Enqueuing cfg event s { s with eventsDetected := s.eventsDetected + 1 } :=
        ⟨⟨h.known, h.ids, h.nodup⟩, rfl, [], (List.append_nil _).symm, nofun⟩
      obtain ⟨hall, _, hmem⟩ := hstart.all hnew ambient.now hforall
      obtain ⟨new, hqueued, hadded⟩ := hall.added
      refine ⟨hall.seen, hall.sound, .all hqueued (fun job hjob => (hadded job hjob).1) hkeys ?_⟩
      exact fun c hc hreachable => hmem c (List.mem_filter.mpr ⟨hc, hreachable⟩)
    · simp only [herror]
      exact ⟨trivial, ⟨h.known, h.ids, h.nodup⟩, .refused rfl hbad⟩

theorem Remembers.unseen (h : Remembers cfg hist s) {id : JsString} (hunseen : id ∉ s.seen) :
    ∀ job ∈ s.queued, job.eventId ≠ id := by
  rintro job hjob rfl
  obtain ⟨t, ht, event, raw, ambient, hlabel, hid⟩ := h.answered job hjob
  exact hunseen ((h.seen _).mpr ⟨t, ht, event, some raw, ambient, hlabel, hid⟩)

theorem Remembers.unanswered (h : Remembers cfg hist s) {id : JsString} (hnone : ∀ t ∈ hist, ¬ Answered id t) :
    ∀ job ∈ s.queued, job.eventId ≠ id := by
  rintro job hjob rfl
  obtain ⟨t, ht, hanswered⟩ := h.answered job hjob
  exact hnone t ht hanswered

section Report
variable {event : AccessRequestEvent} {answer : Option (List (Option RegistryEntry))} {ambient : Ambient}

end Report

theorem Remembers.next (h : Remembers cfg hist s) (happening : Happening) :
    Remembers cfg (⟨s, happening, exec cfg s happening⟩ :: hist) (exec cfg s happening) := by
  have hkept : ∀ job ∈ s.queued, ∃ t ∈ ⟨s, happening, exec cfg s happening⟩ :: hist, Answered job.eventId t := by
    intro job hjob
    obtain ⟨t, ht, hanswered⟩ := h.answered job hjob
    exact ⟨t, List.mem_cons_of_mem _ ht, hanswered⟩
  cases happening with
  | pump now delivery =>
    refine ⟨⟨fun id hid => h.sound.known id (pump_known hid), h.sound.ids, h.sound.nodup⟩, fun id => ?_, hkept⟩
    refine (h.seen id).trans ⟨fun ⟨t, ht, hreports⟩ => ⟨t, List.mem_cons_of_mem _ ht, hreports⟩, ?_⟩
    rintro ⟨t, ht, hreports⟩
    rcases List.mem_cons.mp ht with rfl | ht
    · obtain ⟨_, _, _, hlabel, _⟩ := hreports
      cases hlabel
    · exact ⟨t, ht, hreports⟩
  | report event answer ambient =>
    have hreported : ∀ id, (∃ t ∈ ⟨s, .report event answer ambient, exec cfg s (.report event answer ambient)⟩ :: hist,
        Reports id t) ↔ id = event.id.string ∨ id ∈ s.seen := by
      intro id
      rw [h.seen]
      constructor
      · rintro ⟨t, ht, hreports⟩
        rcases List.mem_cons.mp ht with rfl | ht
        · obtain ⟨_, _, _, hlabel, rfl⟩ := hreports
          cases hlabel
          exact .inl rfl
        · exact .inr ⟨t, ht, hreports⟩
      · rintro (rfl | ⟨t, ht, hreports⟩)
        · exact ⟨_, List.mem_cons_self .., event, answer, ambient, rfl, rfl⟩
        · exact ⟨t, List.mem_cons_of_mem _ ht, hreports⟩
    by_cases hseen : event.id.string ∈ s.seen
    · have hsame : exec cfg s (.report event answer ambient) = s := if_pos hseen
      refine ⟨by rw [hsame]; exact h.sound, fun id => ?_, fun job hjob => hkept job (by rwa [hsame] at hjob)⟩
      rw [hreported, hsame]
      constructor
      · exact .inr
      · rintro (rfl | hid)
        · exact hseen
        · exact hid
    · have hemit : exec cfg s (.report event answer ambient) =
          handleEvent cfg ambient event answer { s with seen := event.id.string :: s.seen } := if_neg hseen
      obtain ⟨hseen', hsound, henqueues⟩ := @handleEvent_enqueues cfg
        { s with seen := event.id.string :: s.seen } ⟨h.sound.known, h.sound.ids, h.sound.nodup⟩ event
        (h.unseen hseen) answer ambient
      rw [← hemit] at hseen' hsound henqueues
      refine ⟨hsound, fun id => ?_, fun job hjob => ?_⟩
      · rw [hreported, hseen', List.mem_cons]
      · cases henqueues with
        | unanswered hqueued => exact hkept job (hqueued ▸ hjob)
        | refused hqueued _ => exact hkept job (hqueued ▸ hjob)
        | all hqueued hadded _ _ =>
          rcases List.mem_append.mp (hqueued ▸ hjob) with hold | hlast
          · exact hkept job hold
          · exact ⟨_, List.mem_cons_self .., event, _, ambient, rfl, (hadded job hlast).symm⟩

end Runs

/-! ## One event -/

/-- A relayer that reaches contacts by push alone. -/
def plainRelay : Config where
  toLowerCase := id
  approvalUiBaseUrl := []
  searchParams _ := []
  box _ _ _ := []

def requested : AccessRequestEvent where
  id := .soroban ⟨[67], by decide⟩ ⟨[49], by decide⟩
  chain := js "soroban"
  contractId := [67]
  requestId := 1
  documentId := 1
  requester := []
  blockNumber := 1
  confirmedAt := []
  detectedAtMs := 0

def relayed (happenings : List Happening) : List (Transition GuardianRelayer Happening) × GuardianRelayer :=
  executed (exec plainRelay) {} happenings

end ChainGuard.OffChain.GuardianRelay
