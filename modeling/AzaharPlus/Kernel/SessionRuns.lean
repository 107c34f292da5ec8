import AzaharPlus.Kernel.SessionInvariants

/-!
# Runs of the session protocol

What holds of ports, sessions and requests in every state that a run can reach, whatever the
order of the system calls.

* `run_followed` — the events of every client thread, taken alone, are exchanges one after the
  other: sent, taken up, replied; only the loss of one of the two ends breaks one off.  A thread
  that sleeps in a request is in exactly one list of one session, or that session has lost an end.
* `run_sleepers` — no thread sleeps on a port with a connection to accept, or on a session whose
  client has gone.
-/

namespace AzaharPlus.Kernel.Sessions

namespace System

variable {σ σ' : System}

/-! ## The operations -/

/-- A change of registers or priorities. -/
theorem SoundBut.congr {o : Option WaitObject} (h : SoundBut o σ)
    (hsessions : σ'.sessions = σ.sessions) (hports : σ'.ports = σ.ports)
    (hsessionCount : σ'.sessionCount = σ.sessionCount)
    (htrace : σ'.trace = σ.trace) (hwaiting : σ'.waitingThreads = σ.waitingThreads)
    (hthreads : ∀ t, (σ'.threads t).status = (σ.threads t).status ∧
      (σ'.threads t).waitObjects = (σ.threads t).waitObjects) : SoundBut o σ' where
  followed := h.followed.congr htrace hsessionCount (.of_eq hsessions)
    (.of_eq fun t => (hthreads t).1)
  waits := h.waits.congr hwaiting (fun t => (hthreads t).2) fun t ht => (hthreads t).1.trans ht
  ends := h.ends.congr hports hsessionCount (fun s => hsessions ▸ .refl _)
    fun s hs => .inl (by rwa [hwaiting] at hs)
  sleepers := h.sleepers.congr ⟨fun p => by rw [hports], fun s => by rw [hsessions]⟩
    fun o ho => by rwa [hwaiting] at ho

theorem SoundBut.setResult {o : Option WaitObject} (h : SoundBut o σ) (t : Nat) (r : Result)
    (i : Int) : SoundBut o (σ.setResult t r i) :=
  h.congr rfl rfl rfl rfl rfl (setResult_threads t r i)

theorem SoundBut.acquire {o : Option WaitObject} (h : SoundBut o σ) {o' : WaitObject}
    (hready : σ.shouldWait o' = false) : SoundBut o (σ.acquire o') := by
  obtain ⟨hthreads, hwaiting, hports, -, hsame⟩ := acquire_frame σ o'
  refine ⟨h.followed.acquire hready, h.waits.of_eq hwaiting hthreads, h.ends.acquire o',
    h.sleepers.congr ?_ fun o'' ho'' => ?_⟩
  · exact ⟨fun p => by rw [hports], fun u => (hsame u).1⟩
  · rwa [hwaiting] at ho''

theorem Sound.sleep (h : σ.Sound) {t : Nat} (ht : (σ.threads t).status = .ready)
    {objects : List WaitObject} (hhandles : ∀ o ∈ objects, σ.hasHandle o)
    (hwait : ∀ o ∈ objects, σ.shouldWait o = true) (receives : Bool) (result : Result) :
    (σ.sleep t objects receives result).Sound := by
  have hwaits := h.waits.sleep ht objects receives result
  obtain ⟨hframe, -, hmem⟩ := sleep_spec h.waits.toListed t objects receives result
  have hsleepers : SleepersBut none (σ.sleep t objects receives result) := by
    intro o _ hne
    have hworth : (σ.sleep t objects receives result).Worth o ↔ σ.Worth o := by
      rw [hframe]
      cases o <;> rfl
    rw [hworth]
    obtain ⟨u, hu⟩ := List.exists_mem_of_ne_nil _ hne
    rcases (hmem o u).mp hu with hold | ⟨-, hin⟩
    · exact h.sleepers o (by simp) (List.ne_nil_of_mem hold)
    · have hshould := hwait o hin
      cases o with
      | serverPort p => simpa [shouldWait, Worth] using hshould
      | serverSession s =>
        simp only [shouldWait, Bool.and_eq_true] at hshould
        exact hshould.1
  refine ⟨?_, hwaits, ?_, hsleepers⟩
  · rw [hframe]
    refine h.followed.congr rfl rfl (.of_eq rfl) fun u => ?_
    by_cases hu : u = t
    · subst hu
      simp [setWaiting, ht]
    · by_cases hd : (σ.threads u).status = .dead <;> simp [setWaiting, hu, hd]
  · refine h.ends.congr (by rw [hframe]; rfl) (by rw [hframe]; rfl)
      (fun s => by rw [hframe]; exact .refl _) fun s hs => ?_
    obtain ⟨u, hu⟩ := List.exists_mem_of_ne_nil _ hs
    rcases (hmem _ u).mp hu with hold | ⟨-, hin⟩
    · exact .inl (List.ne_nil_of_mem hold)
    · exact .inr (h.ends.server s (.inl (hhandles _ hin)))

theorem Sound.takeReady (h : σ.Sound) (t : Nat) (objects : List WaitObject) (receives : Bool)
    {o : WaitObject} (hready : σ.shouldWait o = false) :
    (σ.takeReady t objects receives o).Sound :=
  (h.acquire hready).setResult _ _ _

theorem Sound.waitSynchronization (h : σ.Sound) {t : Nat} (ht : (σ.threads t).status = .ready)
    {objects : List WaitObject} (hhandles : ∀ o ∈ objects, σ.hasHandle o) (poll : Bool) :
    (σ.waitSynchronization t objects poll).Sound := by
  unfold System.waitSynchronization
  split
  · rename_i o hfind
    exact h.takeReady t objects false (by simpa using List.find?_some hfind)
  · rename_i hfind
    split
    · exact h.setResult _ _ _
    · exact h.sleep ht hhandles (by simpa using hfind) false .timeout

theorem Sound.receive (h : σ.Sound) {t : Nat} (ht : (σ.threads t).status = .ready)
    {objects : List WaitObject} (hhandles : ∀ o ∈ objects, σ.hasHandle o) (replied : Bool) :
    (σ.receive t objects replied).Sound := by
  unfold System.receive
  split
  · exact h.setResult _ _ _
  · split
    · rename_i o hfind
      exact h.takeReady t objects true (by simpa using List.find?_some hfind)
    · rename_i hfind
      exact h.sleep ht hhandles (by simpa using hfind) true .success

theorem modifySession_apply (σ : System) (s : Nat) (f : Session → Session) (u : Nat) :
    (σ.modifySession s f).sessions u = if u = s then f (σ.sessions s) else σ.sessions u := by
  by_cases hu : u = s
  · subst hu
    simp
  · simp [hu]

theorem SameEnds.update {sessions : Nat → Session} {s : Nat} {ss : Session}
    (h : SameEnds (sessions s) ss) (u : Nat) :
    SameEnds (sessions u) (Function.update sessions s ss u) :=
  update_ind SameEnds.refl h u

theorem SameRequests.modifySession {s : Nat} {f : Session → Session}
    (hf : ∀ ss, (f ss).pendingRequestingThreads = ss.pendingRequestingThreads ∧
      (f ss).currentlyHandling = ss.currentlyHandling ∧ (f ss).client = ss.client ∧
      (f ss).server = ss.server) : SameRequests σ (σ.modifySession s f) := by
  intro u
  rw [modifySession_apply]
  split
  · rename_i hu
    subst hu
    exact hf _
  · exact ⟨rfl, rfl, rfl, rfl⟩

theorem client_update {sessions : Nat → Session} {s : Nat} {ss : Session}
    (h : ss.client = (sessions s).client) (u : Nat) :
    (Function.update sessions s ss u).client = (sessions u).client :=
  update_ind (P := fun ss ss' : Session => ss'.client = ss.client) (fun _ => rfl) h u

/-- The server replies to the request it is handling, and its thread goes on. -/
theorem Sound.reply (h : σ.Sound) {s u : Nat}
    (hu : (σ.sessions s).currentlyHandling = some u) :
    ((σ.finish s (.replied u s)).resumeFromWait u).Sound := by
  have hfollowed := h.followed
  obtain ⟨φ₀, -, hreq⟩ := hfollowed
  have hφu : ∀ φ, Requests φ σ → φ u = .handled s := fun φ hreq =>
    ((hreq.sessions s).handled u).mp hu
  have hbusy := hreq.busy (t := u) (by simp [hφu φ₀ hreq])
  obtain ⟨hwaiting, hports, hsessions, -, hsessionCount, htrace⟩ := resumeFromWait_frame
    (σ.finish s (.replied u s)) u
  have hstatus : ∀ v, (((σ.finish s (.replied u s)).resumeFromWait u).threads v).status =
        if v = u ∧ (σ.threads u).status = .waitIPC then .ready else (σ.threads v).status := by
    intro v
    unfold System.resumeFromWait
    rcases hbusy with hb | hb
    · by_cases hv : v = u
      · subst hv
        simp [hb]
      · simp [hb, hv]
    · simp [hb]
  have hfree : (σ.threads u).waitObjects = [] := by
    by_contra hne
    have hasleep := h.waits.asleep u hne
    rcases hbusy with hb | hb <;> exact absurd (hasleep.symm.trans hb) (by decide)
  have hwaits : (σ.finish s (.replied u s)).Waits := h.waits.of_eq rfl rfl
  refine ⟨h.followed.moves (e := .replied u s) (p := .idle) ?_ (by rw [htrace]; rfl)
    (fun φ hφ => by simp [Event.client, hφu φ hφ, Phase.next]) (by simp),
    hwaits.resumeFromWait hfree, ?_, ?_⟩
  · have hnot : u ∉ (σ.sessions s).pendingRequestingThreads := by
      rw [(hreq.sessions s).pending, hφu φ₀ hreq]
      simp
    refine ⟨fun s' hs => ?_, fun v => ?_, ?_, fun v => ?_, ?_,
      (hreq.sessions s).ends u (.inr (hφu φ₀ hreq)), hreq.lt u s (by rw [hφu φ₀ hreq]; rfl),
      hsessionCount, fun v hv => ?_, ?_⟩
    · rw [hsessions]
      exact Function.update_of_ne hs ..
    · by_cases hv : v = u
      · subst hv
        simpa [hsessions, Event.client, Event.session] using hnot
      · simp [hsessions, Event.client, Event.session, hv]
    · simpa [hsessions, Event.session] using (hreq.sessions s).nodup
    · by_cases hv : v = u
      · simp [hsessions, Event.client, Event.session, hv]
      · simp [hsessions, Event.client, Event.session, hv, hu, Ne.symm hv]
    · simp [hsessions, Event.session]
    · have hne : v ≠ u := hv
      simp [hstatus, hne]
    · change Phase.Fits ((_ : System).threads u).status _
      rw [hstatus]
      rcases hbusy with hb | hb <;> simp [hb, Phase.Fits]
  · refine h.ends.congr hports hsessionCount (fun v => ?_)
      fun v hv => .inl (by rwa [hwaiting] at hv)
    rw [hsessions]
    refine SameEnds.update ?_ v
    exact ⟨rfl, rfl, rfl, rfl, rfl⟩
  · refine h.sleepers.congr ⟨fun p => by rw [hports]; rfl, fun v => ?_⟩ fun o ho => by
      rwa [hwaiting] at ho
    rw [hsessions]
    refine client_update ?_ v
    rfl

theorem Sound.replyAndReceive (h : σ.Sound) {t : Nat} (ht : (σ.threads t).status = .ready)
    (reply : Option Nat) {objects : List WaitObject} (hhandles : ∀ o ∈ objects, σ.hasHandle o) :
    (σ.replyAndReceive t reply objects).Sound := by
  unfold System.replyAndReceive
  split
  · exact h.receive ht hhandles false
  · rename_i s
    split
    · exact h.setResult _ _ _
    · rename_i u hu
      obtain ⟨φ, -, hreq⟩ := h.followed
      have hends := (hreq.sessions s).ends u (.inr (((hreq.sessions s).handled u).mp hu))
      simp only [hends.1, if_true]
      obtain ⟨-, -, hsessions, hportCount, -, -⟩ := resumeFromWait_frame
        (σ.finish s (.replied u s)) u
      refine (h.reply hu).receive ?_ (fun o ho => ?_) true
      · unfold System.resumeFromWait
        split <;> try exact ht
        by_cases htu : t = u
        · subst htu
          simp
        · simpa [htu] using ht
      · have hhas := hhandles o ho
        cases o with
        | serverPort p => exact hhas.trans_eq hportCount.symm
        | serverSession s' =>
          rw [hasHandle, hsessions]
          exact update_ind (P := fun ss ss' : Session => 0 < ss.serverHandles →
            0 < ss'.serverHandles) (fun _ => id) (by exact id) s' hhas

/-- A thread that can run sends a request to a server end that exists, and sleeps. -/
theorem Sound.sendSyncRequest (h : σ.Sound) {t s : Nat} (ht : (σ.threads t).status = .ready)
    (hs : 0 < (σ.sessions s).clientHandles) : (σ.sendSyncRequest t s).Sound := by
  unfold System.sendSyncRequest
  split
  case isFalse => exact h.setResult _ _ _
  case isTrue hserver =>
  have hclient := h.ends.client s hs
  have hfollowed := h.followed
  obtain ⟨φ₀, -, hreq⟩ := hfollowed
  have hφt : ∀ φ, Requests φ σ → φ t = .idle := by
    intro φ hreq
    by_contra hne
    rcases hreq.busy hne with hb | hb <;> exact absurd (ht.symm.trans hb) (by decide)
  have hfree : (σ.threads t).waitObjects = [] := by
    by_contra hne
    exact absurd ((h.waits.asleep t hne).symm.trans ht) (by decide)
  have hnot : t ∉ (σ.sessions s).pendingRequestingThreads := by
    rw [(hreq.sessions s).pending, hφt φ₀ hreq]
    simp
  have hidle : (σ.sessions s).currentlyHandling ≠ some t := by
    rw [Ne, (hreq.sessions s).handled, hφt φ₀ hreq]
    simp
  refine SoundBut.wakeupAll (show Sound _ from ⟨h.followed.moves (e := .sent t s) (p := .pending s)
    ?_ rfl (fun φ hφ => by simp [Event.client, hφt φ hφ, Phase.next]) (by simp), ?_, ?_, ?_⟩) _
  · refine ⟨fun s' hs => Function.update_of_ne hs _ _, fun u => ?_, ?_, fun u => ?_, ?_,
      ⟨hclient, hserver⟩, h.ends.unused s hserver, rfl, fun u hu => ?_,
      by simp [Event.client, Phase.Fits]⟩
    · by_cases hu : u = t <;> simp [Event.client, Event.session, hu, setResult]
    · simpa [setResult, Event.session] using List.Nodup.concat hnot (hreq.sessions s).nodup
    · by_cases hu : u = t
      · subst hu
        simpa [Event.client, Event.session, setResult] using hidle
      · simp [Event.client, Event.session, hu, setResult]
    · simp [Event.session, setResult]
    · have hne : u ≠ t := hu
      simp [hne, setResult]
  · refine h.waits.congr rfl (fun u => ?_) fun u hu => ?_
    · by_cases hut : u = t <;> simp [setResult, hut]
    · have hut : u ≠ t := by
        rintro rfl
        exact absurd (hu.symm.trans ht) (by decide)
      simpa [setResult, hut] using hu
  · refine h.ends.congr rfl rfl (SameEnds.update ?_) fun s' hs' => .inl hs'
    exact ⟨rfl, rfl, rfl, rfl, rfl⟩
  · refine h.sleepers.congr ⟨fun p => rfl, client_update ?_⟩ fun o ho => ho
    rfl

/-- A new session is at the place behind all others. -/
theorem createSessionPair_sessions (σ : System) (port : Option Nat) (serverHandles u : Nat) :
    (σ.createSessionPair port serverHandles).sessions u =
      if u = σ.sessionCount then ⟨true, true, port, 1, serverHandles, [], none⟩
      else σ.sessions u := by
  by_cases hu : u = σ.sessionCount
  · subst hu
    simp [createSessionPair]
  · simp [createSessionPair, hu]

/-- Requests do not notice a new session. -/
theorem Followed.createSessionPair (h : σ.Followed) (port : Option Nat) (serverHandles : Nat) :
    (σ.createSessionPair port serverHandles).Followed := by
  obtain ⟨φ, hφ, hreq⟩ := h
  refine ⟨φ, hφ, fun s => ?_, fun t s ht => (hreq.lt t s ht).trans (Nat.lt_succ_self _),
    hreq.threads⟩
  rw [createSessionPair_sessions]
  split
  · rename_i hs
    have hnone : ∀ t p, p.session = some s → φ t ≠ p := fun t p hp ht =>
      (hreq.lt t s (ht ▸ hp)).ne hs
    exact ⟨fun t => iff_of_false List.not_mem_nil (hnone t _ rfl), List.nodup_nil,
      fun t => iff_of_false (by simp) (hnone t _ rfl), fun _ _ => ⟨rfl, rfl⟩,
      fun t ht => absurd ht (hnone t _ rfl)⟩
  · exact hreq.sessions s

/-- Both ends of a new session exist. -/
theorem Ends.create (h : σ.Ends) (port : Option Nat) (serverHandles : Nat)
    (hsessions : σ'.sessions = (σ.createSessionPair port serverHandles).sessions)
    (hcount : σ'.sessionCount = σ.sessionCount + 1)
    (hwaiting : σ'.waitingThreads = σ.waitingThreads)
    (hpending : ∀ p, ∀ s ∈ (σ'.ports p).pendingSessions,
      s ∈ (σ.ports p).pendingSessions ∨ s = σ.sessionCount ∧ port = some p) : σ'.Ends := by
  have hself : σ'.sessions σ.sessionCount = ⟨true, true, port, 1, serverHandles, [], none⟩ := by
    rw [hsessions, createSessionPair_sessions, if_pos rfl]
  have hold : ∀ {s}, s ≠ σ.sessionCount → σ'.sessions s = σ.sessions s := fun {s} hs => by
    rw [hsessions, createSessionPair_sessions, if_neg hs]
  constructor
  case pending =>
    intro p s hs
    rcases hpending p s hs with hin | ⟨rfl, hport⟩
    · have hpend := h.pending p s hin
      rw [hold (h.unused s hpend.1).ne]
      exact hpend
    · rw [hself]
      exact ⟨rfl, hport⟩
  case unused =>
    intro s hs
    rw [hcount]
    by_cases hne : s = σ.sessionCount
    · omega
    · rw [hold hne] at hs
      exact (h.unused s hs).trans (Nat.lt_succ_self _)
  case client =>
    intro s hs
    by_cases hne : s = σ.sessionCount
    · rw [hne, hself]
    · rw [hold hne] at hs ⊢
      exact h.client s hs
  case server =>
    intro s hs
    by_cases hne : s = σ.sessionCount
    · rw [hne, hself]
    · rw [hold hne, hwaiting] at hs
      rw [hold hne]
      exact h.server s hs

/-- The client of a new session exists. -/
theorem worth_createSessionPair (port : Option Nat) (serverHandles : Nat) {s : Nat}
    (h : σ.Worth (.serverSession s)) :
    ((σ.createSessionPair port serverHandles).sessions s).client = true := by
  rw [createSessionPair_sessions]
  split
  · rfl
  · exact h

theorem Sound.createSession (h : σ.Sound) : (σ.createSessionPair none 1).Sound where
  followed := h.followed.createSessionPair none 1
  waits := h.waits.of_eq rfl rfl
  ends := h.ends.create none 1 rfl rfl rfl fun _ _ hs => .inl hs
  sleepers o ho hne := by
    have hold := h.sleepers o ho hne
    cases o with
    | serverPort p => exact hold
    | serverSession s => exact worth_createSessionPair none 1 hold

theorem modifyPort_apply (σ : System) (p : Nat) (f : Port → Port) (q : Nat) :
    (σ.modifyPort p f).ports q = if q = p then f (σ.ports p) else σ.ports q := by
  by_cases hq : q = p
  · subst hq
    simp
  · simp [hq]

theorem addPending_ports (σ : System) (p q : Nat) :
    (σ.addPending p).ports q =
      if q = p then ⟨(σ.ports p).maxSessions, (σ.ports p).activeSessions + 1,
        (σ.ports p).pendingSessions ++ [σ.sessionCount]⟩
      else σ.ports q :=
  modifyPort_apply _ p _ q

/-- A connection that the limit allows; whoever waits for the port is woken. -/
theorem Sound.connect (h : σ.Sound) (t p : Nat) : (σ.connect t p).Sound := by
  unfold System.connect
  split
  case isFalse => exact h.setResult _ _ _
  case isTrue hroom =>
  have hpending : SoundBut (some (.serverPort p)) (σ.addPending p) := by
    refine ⟨?_, h.waits.of_eq rfl rfl, h.ends.create (some p) 0
      rfl rfl rfl fun q s hs => ?_, ?_⟩
    · exact (h.followed.createSessionPair (some p) 0).congr rfl rfl
        (.of_eq rfl) (.of_eq fun _ => rfl)
    · rw [addPending_ports] at hs
      split at hs
      · rename_i hq
        rw [hq]
        exact (List.mem_append.mp hs).imp_right fun hin => ⟨List.mem_singleton.mp hin, rfl⟩
      · exact .inl hs
    · intro o ho hne
      have hold := h.sleepers o (by simp) hne
      cases o with
      | serverPort q =>
        have hq : q ≠ p := fun heq => ho (by rw [heq])
        rw [Worth, addPending_ports, if_neg hq]
        exact hold
      | serverSession s => exact worth_createSessionPair (some p) 0 hold
  refine (hpending.setResult t .success σ.sessionCount).wakeupAll_of_not_worth ?_
  change ((σ.addPending p).ports p).pendingSessions ≠ []
  simp [addPending_ports]

theorem takePending_ports (σ : System) (p s q : Nat) :
    (σ.takePending p s).ports q =
      if q = p then { σ.ports p with pendingSessions := (σ.ports p).pendingSessions.dropLast }
      else σ.ports q :=
  modifyPort_apply σ p
    (fun port => { port with pendingSessions := port.pendingSessions.dropLast }) q

theorem takePending_sessions (σ : System) (p s u : Nat) :
    (σ.takePending p s).sessions u =
      if u = s then { σ.sessions s with serverHandles := (σ.sessions s).serverHandles + 1 }
      else σ.sessions u :=
  modifySession_apply _ s _ u

theorem Ends.takePending (h : σ.Ends) {p s : Nat}
    (hs : (σ.ports p).pendingSessions.getLast? = some s) : (σ.takePending p s).Ends := by
  obtain ⟨rest, hlist⟩ := List.getLast?_eq_some_iff.mp hs
  have hserver := (h.pending p s (by simp [hlist])).1
  refine h.change rfl (fun q u hu => ?_)
    (update_ind KeepsEnds.refl ⟨rfl, rfl, fun hu => ⟨hu, rfl⟩⟩) fun u hu => ?_
  · rw [takePending_ports] at hu
    split at hu
    · rename_i hq
      rw [hq]
      exact List.dropLast_subset _ hu
    · exact hu
  · by_cases hus : u = s
    · exact .inr (hus ▸ hserver)
    · rw [takePending_sessions, if_neg hus] at hu
      exact .inl hu

/-- The server end that is accepted leaves the list of its port for a handle. -/
theorem Sound.accept (h : σ.Sound) (t p : Nat) : (σ.accept t p).Sound := by
  unfold System.accept
  split
  · exact h.setResult _ _ _
  rename_i s hs
  have hsound : (σ.takePending p s).Sound := by
    refine ⟨?_, h.waits.of_eq rfl rfl, h.ends.takePending hs,
      fun o ho hne => ?_⟩
    · exact h.followed.congr rfl rfl (@SameRequests.modifySession (σ.modifyPort p _) _ _
        fun _ => ⟨rfl, rfl, rfl, rfl⟩) (.of_eq fun _ => rfl)
    · have hold := h.sleepers o ho hne
      cases o with
      | serverPort q =>
        rw [Worth, takePending_ports]
        split
        · rename_i hq
          subst hq
          have hnil : (σ.ports q).pendingSessions = [] := hold
          simp [hnil]
        · exact hold
      | serverSession u =>
        rw [Worth, takePending_sessions]
        split
        · rename_i hu
          subst hu
          exact hold
        · exact hold
  exact hsound.setResult t .success s

theorem Sound.createPort (h : σ.Sound) (maxSessions : Nat) : (σ.createPort maxSessions).Sound := by
  have hports : ∀ q, (σ.createPort maxSessions).ports q =
      if q = σ.portCount then ⟨maxSessions, 0, []⟩ else σ.ports q := by
    intro q
    by_cases hq : q = σ.portCount
    · subst hq
      simp [System.createPort]
    · simp [System.createPort, hq]
  refine ⟨h.followed.congr rfl rfl (.of_eq rfl) (.of_eq fun _ => rfl),
    h.waits.of_eq rfl rfl, h.ends.change rfl (fun q s hs => ?_)
      (fun _ => .refl _) fun _ hs => .inl hs, fun o ho hne => ?_⟩
  · rw [hports] at hs
    split at hs
    · cases hs
    · exact hs
  · have hold := h.sleepers o ho hne
    cases o with
    | serverPort q =>
      rw [Worth, hports]
      split
      · rfl
      · exact hold
    | serverSession s => exact hold

theorem Listed.modifyThread (h : σ.Listed) {t : Nat} {f : Thread → Thread}
    (hf : (f (σ.threads t)).waitObjects = (σ.threads t).waitObjects) :
    (σ.modifyThread t f).Listed :=
  h.congr rfl (update_ind (P := fun th th' : Thread => th'.waitObjects = th.waitObjects)
    (fun _ => rfl) hf)

/-- A thread that stops waiting with another status. -/
theorem Sound.stopWaiting (h : σ.Sound) {t : Nat} (f : Thread → Thread)
    (hobjects : (f (σ.threads t)).waitObjects = (σ.threads t).waitObjects)
    (hstatus : (f (σ.threads t)).status = .dead ∨
      (f (σ.threads t)).status = .waitSynchAny ∧ (σ.threads t).status = .waitSynchAny) :
    ((σ.modifyThread t f).clearWaitObjects t).Sound := by
  have hlisted : (σ.modifyThread t f).Listed := h.waits.toListed.modifyThread hobjects
  refine ⟨Followed.clearWaitObjects ?_ hlisted t, Waits.clearWaitObjects hlisted t fun u hu => ?_,
    Ends.clearWaitObjects ?_ hlisted t, SleepersBut.clearWaitObjects ?_ hlisted t⟩
  · refine h.followed.congr rfl rfl (.of_eq rfl) fun u => ?_
    by_cases hu : u = t
    · subst hu
      rcases hstatus with hdead | ⟨hnew, hold⟩
      · simp [hdead]
      · simp [hnew, hold]
    · by_cases hd : (σ.threads u).status = .dead <;> simp [hu, hd]
  · have hasleep := h.waits.asleep u
    simpa [Asleep, hu] using hasleep
  · exact h.ends.congr rfl rfl (fun _ => .refl _) fun _ hs => .inl hs
  · exact h.sleepers.congr ⟨fun p => rfl, fun s => rfl⟩ fun o ho => ho

theorem Sound.stop (h : σ.Sound) (t : Nat) : (σ.stop t).Sound :=
  h.stopWaiting _ rfl (.inl rfl)

theorem Sound.wakeupTimeout (h : σ.Sound) {t : Nat} (ht : (σ.threads t).status = .waitSynchAny) :
    (σ.wakeupTimeout t).Sound := by
  have hstopped := h.stopWaiting (t := t) (fun th => { th with result := .timeout })
    rfl (.inr ⟨ht, ht⟩)
  have hlisted : (σ.modifyThread t fun th => { th with result := .timeout }).Listed :=
    h.waits.toListed.modifyThread rfl
  have hthread : (((σ.modifyThread t fun th => { th with result := .timeout }).clearWaitObjects
      t).threads t).waitObjects = [] ∧ (((σ.modifyThread t fun th =>
        { th with result := .timeout }).clearWaitObjects t).threads t).status = .waitSynchAny := by
    rw [clearWaitObjects_threads hlisted]
    simp [ht]
  exact ⟨hstopped.followed.resumeFromWait (by rw [hthread.2]; decide),
    hstopped.waits.resumeFromWait hthread.1, hstopped.ends.resumeFromWait t,
    hstopped.sleepers.resumeFromWait t⟩

/-- Another handle of an end that has one, or one less. -/
theorem Sound.modifyHandles (h : σ.Sound) {s : Nat} (f : Session → Session)
    (hsame : ∀ ss, (f ss).client = ss.client ∧ (f ss).server = ss.server ∧ (f ss).port = ss.port ∧
      (f ss).pendingRequestingThreads = ss.pendingRequestingThreads ∧
      (f ss).currentlyHandling = ss.currentlyHandling)
    (hclient : 0 < (f (σ.sessions s)).clientHandles → 0 < (σ.sessions s).clientHandles)
    (hserver : 0 < (f (σ.sessions s)).serverHandles → 0 < (σ.sessions s).serverHandles) :
    (σ.modifySession s f).Sound := by
  obtain ⟨hclient', hserver', hport', -⟩ := hsame (σ.sessions s)
  refine ⟨h.followed.congr rfl rfl (.modifySession fun ss => ?_) (.of_eq fun _ => rfl),
    h.waits.of_eq rfl rfl, h.ends.change rfl (fun _ _ hu => hu)
      (update_ind KeepsEnds.refl ⟨hserver', hport', fun hpos => ⟨hclient hpos, hclient'⟩⟩)
      fun u hu => .inl (hu.imp_left (update_ind (P := fun ss ss' : Session =>
        0 < ss'.serverHandles → 0 < ss.serverHandles) (fun _ => id) hserver u)),
    h.sleepers.congr ⟨fun _ => rfl, client_update hclient'⟩ fun o ho => ho⟩
  obtain ⟨h₁, h₂, -, h₄, h₅⟩ := hsame ss
  exact ⟨h₄, h₅, h₁, h₂⟩

/-- The client end goes away when there is no handle of it. -/
theorem Ends.loseClient (h : σ.Ends) {s : Nat} (hs : (σ.sessions s).clientHandles = 0)
    (f : Session → Session)
    (hsame : ∀ ss, (f ss).server = ss.server ∧ (f ss).port = ss.port ∧
      (f ss).clientHandles = ss.clientHandles ∧ (f ss).serverHandles = ss.serverHandles) :
    (σ.modifySession s f).Ends := by
  obtain ⟨hserver, hport, hclient, hhandles⟩ := hsame (σ.sessions s)
  refine h.change rfl (fun _ _ hu => hu) (update_ind KeepsEnds.refl ⟨hserver, hport, fun hpos => ?_⟩)
    fun u hu => .inl (hu.imp_left (update_ind (P := fun ss ss' : Session =>
      0 < ss'.serverHandles → 0 < ss.serverHandles) (fun _ => id) (hhandles ▸ id) u))
  omega

/-- What a lost client end leaves to sleep on. -/
theorem SleepersBut.loseClient (h : SleepersBut none σ) {s : Nat} (f : Session → Session)
    {o : Option WaitObject} (ho : σ.waitingThreads (.serverSession s) = [] ∨
      o = some (.serverSession s)) : SleepersBut o (σ.modifySession s f) := by
  intro o' ho' hne
  have hold := h o' (by simp) hne
  cases o' with
  | serverPort p => exact hold
  | serverSession u =>
    have hu : u ≠ s := by
      rintro rfl
      rcases ho with hnil | hexcept
      · exact hne hnil
      · exact ho' hexcept.symm
    rw [Worth, modifySession_apply, if_neg hu]
    exact hold

/-- The last handle of the client end is closed: the requests are dropped, and the server learns
of it. -/
theorem Sound.destroyClient (h : σ.Sound) {s : Nat} (hs : (σ.sessions s).clientHandles = 0) :
    (σ.destroyClient s).Sound := by
  unfold System.destroyClient
  split
  case isTrue hserver =>
    refine SoundBut.wakeupAll_of_not_worth ⟨?_, ?_, ?_, ?_⟩ ?_
    · refine h.followed.loses (s := s) ⟨fun u hu => ?_, ?_, ?_, ?_, rfl, rfl, fun _ => rfl⟩
      · simp [hu]
      · simp
      · simp
      · simp
    · exact h.waits.of_eq rfl rfl
    · exact (h.ends.loseClient hs (fun ss => { ss with
        client := false, pendingRequestingThreads := [], currentlyHandling := none })
        fun _ => ⟨rfl, rfl, rfl, rfl⟩).congr rfl rfl (fun _ => .refl _) fun _ hu => .inl hu
    · exact (h.sleepers.loseClient (s := s) (fun ss => { ss with
        client := false, pendingRequestingThreads := [], currentlyHandling := none })
        (.inr rfl)).congr ⟨fun _ => rfl, fun _ => rfl⟩ fun _ ho => ho
    · simp [Worth]
  case isFalse hgone =>
    have hnil : σ.waitingThreads (.serverSession s) = [] := by
      by_contra hne
      exact hgone (h.ends.server s (.inr hne))
    refine ⟨?_, h.waits.of_eq rfl rfl,
      h.ends.loseClient hs _ fun _ => ⟨rfl, rfl, rfl, rfl⟩,
      h.sleepers.loseClient _ (.inl hnil)⟩
    obtain ⟨φ, -, hreq⟩ := h.followed
    have hnone : σ.requestsOf s = [] := by
      refine List.eq_nil_iff_forall_not_mem.mpr fun t ht => hgone ?_
      exact ((hreq.sessions s).ends t (hreq.mem_requestsOf.mp ht)).2
    obtain ⟨hpending, hhandling⟩ := List.append_eq_nil_iff.mp hnone
    refine h.followed.loses (s := s) ⟨fun u hu => ?_, ?_, ?_, ?_, ?_, rfl, fun _ => rfl⟩
    · rw [modifySession_apply, if_neg hu]
    · simpa using hpending
    · simpa using hhandling
    · simp
    · simp [hnone]

theorem Sound.closeClient (h : σ.Sound) (s : Nat) : (σ.closeClient s).Sound := by
  have hless : (σ.modifySession s fun ss =>
      { ss with clientHandles := ss.clientHandles - 1 }).Sound :=
    h.modifyHandles _ (fun _ => ⟨rfl, rfl, rfl, rfl, rfl⟩) (fun hlt => Nat.lt_of_lt_pred hlt) id
  unfold System.closeClient
  dsimp only
  split
  · rename_i hzero
    exact hless.destroyClient hzero
  · exact hless

theorem Sound.closeServer (h : σ.Sound) (s : Nat) : (σ.closeServer s).Sound := by
  unfold System.closeServer
  have hless : (σ.modifySession s fun ss =>
      { ss with serverHandles := ss.serverHandles - 1 }).Sound :=
    h.modifyHandles _ (fun _ => ⟨rfl, rfl, rfl, rfl, rfl⟩) id fun hlt => Nat.lt_of_lt_pred hlt
  have hkept := kept_releaseServer (σ.modifySession s fun ss =>
    { ss with serverHandles := ss.serverHandles - 1 }) s
  exact ⟨hless.followed.releaseServer s,
    hless.waits.of_eq hkept.waitingThreads hkept.threads,
    hless.ends.releaseServer s, hless.sleepers.congr ⟨hkept.pendingSessions, hkept.client⟩
      fun o ho => by rwa [hkept.waitingThreads] at ho⟩

/-- Every operation keeps the invariants. -/
theorem Sound.step (h : σ.Sound) (op : Op) : (σ.step op).Sound := by
  unfold System.step
  split
  case isFalse => exact h
  case isTrue hpossible =>
  cases op with
  | createPort maxSessions => exact h.createPort maxSessions
  | createSession => exact h.createSession
  | connect t p => exact h.connect t p
  | accept t p => exact h.accept t p
  | sendSyncRequest t s => exact h.sendSyncRequest hpossible.1 hpossible.2
  | replyAndReceive t reply objects => exact h.replyAndReceive hpossible.1 reply hpossible.2.2
  | waitSynchronization t objects poll => exact h.waitSynchronization hpossible.1 hpossible.2 poll
  | wakeupTimeout t => exact h.wakeupTimeout hpossible.1
  | setPriority t priority =>
    exact h.congr rfl rfl rfl rfl rfl (update_ind (P := fun th th' : Thread =>
      th'.status = th.status ∧ th'.waitObjects = th.waitObjects) (fun _ => ⟨rfl, rfl⟩) ⟨rfl, rfl⟩)
  | stop t => exact h.stop t
  | duplicateClient s =>
    exact h.modifyHandles (fun ss => { ss with clientHandles := ss.clientHandles + 1 })
      (fun _ => ⟨rfl, rfl, rfl, rfl, rfl⟩) (fun _ => hpossible) id
  | duplicateServer s =>
    exact h.modifyHandles (fun ss => { ss with serverHandles := ss.serverHandles + 1 })
      (fun _ => ⟨rfl, rfl, rfl, rfl, rfl⟩) id fun _ => hpossible
  | closeClient s => exact h.closeClient s
  | closeServer s => exact h.closeServer s

theorem sound_initial (priority : Nat → Fin (threadPrioLowest + 1)) : (initial priority).Sound := by
  refine ⟨⟨fun _ => .idle, rfl, ?_⟩, ⟨⟨?_, ?_⟩, ?_⟩, ?_, ?_⟩
  · refine ⟨fun s => ?_, by simp [Phase.session], by simp [Phase.Fits, initial]⟩
    constructor <;> simp [initial, Session.none]
  · simp [initial]
  · simp [initial]
  · simp [initial, Asleep]
  · constructor <;> simp [initial, Session.none]
  · intro o _ hne
    exact absurd rfl hne

theorem sound_run (priority : Nat → Fin (threadPrioLowest + 1)) (ops : List Op) :
    (run priority ops).Sound :=
  List.foldlRecOn ops step (sound_initial priority) fun _ h op _ => Sound.step h op

/-! ## What every run does -/

/-- Where a client thread and its request are in a phase. -/
def Describes (σ : System) (t : Nat) : Phase → Prop
  | .idle => (σ.threads t).status ≠ .waitIPC ∧ ∀ s, t ∉ σ.requestsOf s
  | .pending s => ((σ.threads t).status = .waitIPC ∨ (σ.threads t).status = .dead) ∧
      (σ.sessions s).client = true ∧ (σ.sessions s).server = true ∧
      (σ.sessions s).pendingRequestingThreads.count t = 1 ∧
      ∀ s', (σ.requestsOf s').count t = if s' = s then 1 else 0
  | .handled s => ((σ.threads t).status = .waitIPC ∨ (σ.threads t).status = .dead) ∧
      (σ.sessions s).client = true ∧ (σ.sessions s).server = true ∧
      (σ.sessions s).currentlyHandling = some t ∧
      ∀ s', (σ.requestsOf s').count t = if s' = s then 1 else 0
  | .stranded s => ((σ.threads t).status = .waitIPC ∨ (σ.threads t).status = .dead) ∧
      ¬((σ.sessions s).client = true ∧ (σ.sessions s).server = true) ∧
      ∀ s', t ∉ σ.requestsOf s'

theorem Requests.describes {φ : Nat → Phase} (h : Requests φ σ) (t : Nat) :
    σ.Describes t (φ t) := by
  have hcount : ∀ s s', φ t = .pending s ∨ φ t = .handled s →
      (σ.requestsOf s').count t = if s' = s then 1 else 0 := by
    intro s s' hφ
    have hmem := h.mem_requestsOf (s := s') (t := t)
    split
    · rename_i hs
      subst hs
      exact List.count_eq_one_of_mem (h.nodup_requestsOf s') (hmem.mpr hφ)
    · rename_i hs
      refine List.count_eq_zero_of_not_mem fun hin => ?_
      rcases hφ with hφ | hφ <;> rcases hmem.mp hin with hin | hin <;>
        simp [hφ, Ne.symm hs] at hin
  have hnone : ∀ s, φ t ≠ .pending s ∧ φ t ≠ .handled s → t ∉ σ.requestsOf s := by
    intro s hφ hin
    rcases h.mem_requestsOf.mp hin with hin | hin
    · exact hφ.1 hin
    · exact hφ.2 hin
  cases hφ : φ t with
  | idle => exact ⟨h.idle hφ, fun s => hnone s (by simp [hφ])⟩
  | pending s =>
    have hends := (h.sessions s).ends t (.inl hφ)
    exact ⟨h.busy (by simp [hφ]), hends.1, hends.2, List.count_eq_one_of_mem (h.sessions s).nodup
      (((h.sessions s).pending t).mpr hφ), fun s' => hcount s s' (.inl hφ)⟩
  | handled s =>
    have hends := (h.sessions s).ends t (.inr hφ)
    exact ⟨h.busy (by simp [hφ]), hends.1, hends.2, ((h.sessions s).handled t).mpr hφ,
      fun s' => hcount s s' (.inr hφ)⟩
  | stranded s =>
    exact ⟨h.busy (by simp [hφ]), (h.sessions s).stranded t hφ, fun s' => hnone s' (by simp [hφ])⟩

/-- The events of a client thread follow the phases one after the other, and the state is where
they end: no request is taken up twice, answered twice or answered by another session. -/
theorem run_followed (priority : Nat → Fin (threadPrioLowest + 1)) (ops : List Op) (t : Nat) :
    ∃ p, (Parties.eventsOf Event.client t (run priority ops).trace).foldlM Phase.next .idle = some p ∧
      (run priority ops).Describes t p := by
  obtain ⟨φ, hφ, hreq⟩ := (sound_run priority ops).followed
  exact ⟨φ t, Parties.run_eq_some_iff.mp hφ t, hreq.describes t⟩

/-- Whoever is on a list sleeps, waits for that object, and could not go on with it: nothing is to
be accepted there, or its client still exists. -/
theorem run_sleepers (priority : Nat → Fin (threadPrioLowest + 1)) (ops : List Op)
    (o : WaitObject) :
    ∀ t ∈ (run priority ops).waitingThreads o,
      ((run priority ops).threads t).status = .waitSynchAny ∧
        o ∈ ((run priority ops).threads t).waitObjects ∧ (run priority ops).Worth o := by
  intro t ht
  have hsound := sound_run priority ops
  have hin := (hsound.waits.mem_iff o t).mp ht
  exact ⟨hsound.waits.asleep t (List.ne_nil_of_mem hin), hin,
    hsound.sleepers o (by simp) (List.ne_nil_of_mem ht)⟩

theorem run_sleepers_on_session :
    (run (fun _ => Fin.last _) [.createSession, .waitSynchronization 1 [.serverSession 0] false]).Worth
      (.serverSession 0) :=
  (run_sleepers _ _ _ 1 (by decide)).2.2

end System

end AzaharPlus.Kernel.Sessions
