import AzaharPlus.Pica.GeometryPipeline

/-!
# Vertices in the geometry pipeline

Where `GeometryPipeline` writes the vertices that it collects, and when the geometry shader is invoked.

* `Collected` — where a backend stands between two calls.
* `collected_submitIndex`, `collected_submitVertex` — the calls keep it.
* `historyOk_submitAll` — runs in which the uniforms hold what the registers ask for.
* `submitted_in_bounds_iff` — the registers and indices for which every run stays in bounds.
* `announced_vertices_overflow` — an index behind which the run leaves the uniforms.
-/

namespace AzaharPlus.Pica

namespace GeometryPipeline

variable {F : Type}

/-! ## Sequences of calls -/

/-- A call of `SubmitIndex` or `SubmitVertex`. -/
inductive Call (F : Type) where
  | index (val : BitVec 32)
  | vertex (input : AttributeBuffer F)

/-- What `NeedIndexInput` says before such a call, by the assertions of the backends. -/
def Call.wantsIndex : Call F → Bool
  | .index _ => true
  | .vertex _ => false

section Calls

variable (regs : Nat → BitVec 32) (vertexNum : BitVec 32 → F)
  (run : ShaderSetup F → ShaderUnit F → ShaderUnit F)

/-- One call. -/
def submit (p : GeometryPipeline F) : Call F → Option (GeometryPipeline F)
  | .index val => p.submitIndex regs vertexNum val
  | .vertex input => some (p.submitVertex regs run input)

/-- The calls one after another. -/
def submitAll : List (Call F) → GeometryPipeline F → Option (GeometryPipeline F)
  | [], p => some p
  | call :: rest, p => (submit regs vertexNum run p call).bind (submitAll rest)

/-- Each call follows `NeedIndexInput`, and its index is one of `values`. -/
def Respects (values : BitVec 32 → Prop) : List (Call F) → GeometryPipeline F → Prop
  | [], _ => True
  | call :: rest, p =>
      p.needIndexInput = call.wantsIndex ∧ (∀ val, call = .index val → values val) ∧
        ∀ q, submit regs vertexNum run p call = some q → Respects values rest q

end Calls

/-! ## What is expected of the pipeline -/

/-- Writes go to the attribute buffer and to the float uniforms, and the buffer is full with the vertex
that the index announces as the last one. -/
def EventOk : PipelineEvent F → Prop
  | .storeAttribute index => index < 16
  | .storeUniform index => index < 96
  | .count announced received full =>
      received ≤ announced ∧ (full = true ↔ received = announced)
  | _ => True

/-- All that has happened is as expected. -/
def HistoryOk (p : GeometryPipeline F) : Prop := ∀ e ∈ p.history, EventOk e

/-- The entries that so many vertices take: the main vertices have all attributes, the others one. -/
def entries (main n received : Nat) : Nat := min main received * n + (received - main)

/-- The uniforms hold the vertices behind an index, and there is at least one. -/
def AnnouncementFits (regs : Nat → BitVec 32) (val : BitVec 32) : Prop :=
  0 < val.toNat ∧ 1 + entries (mainVertexNum regs).toNat (vsOutputNum regs) val.toNat ≤ 96

/-- The uniforms hold what the registers ask for, with any of the indices. -/
def SettingFits (regs : Nat → BitVec 32) (values : BitVec 32 → Prop) : Prop :=
  useGs regs ≠ 0 →
    (gsMode regs = 1 → ∀ val, values val → AnnouncementFits regs val) ∧
      (gsMode regs = 2 →
        startIndex regs + vsOutputNum regs * (fixedVertexNumMinus1 regs + 1) ≤ 96)

/-! ## Where a backend stands -/

section Collected

variable (regs : Nat → BitVec 32)

/-- Whole vertices have been copied to the attribute buffer, and it is not full. -/
structure PointCollected (b : PointBackend F) : Prop where
  vsOutputNum : b.vsOutputNum = vsOutputNum regs
  bufferEnd : b.bufferEnd ≤ 16
  dvd_end : b.vsOutputNum ∣ b.bufferEnd
  dvd_cur : b.vsOutputNum ∣ b.bufferCur
  cur_lt : b.bufferCur < b.bufferEnd

/-- The pointer and the counters belong to the vertices received, and some are still to come. -/
structure VariableCollected (b : VariableBackend) : Prop where
  vsOutputNum : b.vsOutputNum = vsOutputNum regs
  received : b.received < b.announced.toNat
  total : b.totalVertexNum.toNat = b.announced.toNat - b.received
  main : b.mainVertexNum.toNat = (mainVertexNum regs).toNat - b.received
  cur : b.bufferCur = 1 + entries (mainVertexNum regs).toNat (Pica.vsOutputNum regs) b.received

/-- Whole vertices have been copied to the uniforms, and some are still to come. -/
structure FixedCollected (b : FixedBackend) : Prop where
  bufferBegin : b.bufferBegin = startIndex regs
  vsOutputNum : b.vsOutputNum = vsOutputNum regs
  bufferEnd : b.bufferEnd =
    startIndex regs + Pica.vsOutputNum regs * (fixedVertexNumMinus1 regs + 1)
  cur : ∃ k ≤ fixedVertexNumMinus1 regs,
    b.bufferCur = startIndex regs + Pica.vsOutputNum regs * k

/-- The backend stands between two vertices. -/
def Collected (p : GeometryPipeline F) : Prop :=
  match p.backend with
  | none => useGs regs = 0
  | some (.point b) => PointCollected regs b
  | some (.variablePrimitive b) =>
      useGs regs ≠ 0 ∧ gsMode regs = 1 ∧ b.vsOutputNum = vsOutputNum regs ∧
        (b.needIndex = false → VariableCollected regs b)
  | some (.fixedPrimitive b) => useGs regs ≠ 0 ∧ gsMode regs = 2 ∧ FixedCollected regs b

end Collected

/-! ## Events -/

theorem forall_mem_stores (event : Nat → PipelineEvent F) (limit : Nat)
    (h : ∀ i, EventOk (event i) ↔ i < limit) (cur : Nat) {n : Nat} (hn : 0 < n) :
    (∀ e ∈ (List.range n).map fun k => event (cur + k), EventOk e) ↔ cur + n ≤ limit := by
  simp only [List.forall_mem_map, List.mem_range, h]
  constructor
  · intro hall
    have hlast := hall (n - 1) (by omega)
    omega
  · intro hle k hk
    omega

/-- The events of a shader that is invoked. -/
theorem historyOk_invokeIf (run : ShaderSetup F → ShaderUnit F → ShaderUnit F) (full : Bool)
    (p : GeometryPipeline F) : HistoryOk (p.invokeIf run full) ↔ HistoryOk p := by
  cases full with
  | true =>
    unfold invokeIf HistoryOk
    rw [if_pos rfl, List.forall_mem_append]
    refine and_iff_left ?_
    intro e he
    rw [List.mem_singleton.1 he]
    trivial
  | false => exact Iff.rfl

theorem backend_invokeIf (run : ShaderSetup F → ShaderUnit F → ShaderUnit F) (full : Bool)
    (p : GeometryPipeline F) : (p.invokeIf run full).backend = p.backend := by
  cases full with
  | true => rfl
  | false => rfl

theorem entries_succ (main n received : Nat) : entries main n (received + 1) =
    entries main n received + if received < main then n else 1 := by
  unfold entries
  by_cases hlt : received < main
  · rw [if_pos hlt, Nat.min_eq_right hlt, Nat.min_eq_right (Nat.le_of_lt hlt), Nat.succ_mul]
    omega
  · rw [if_neg hlt, Nat.min_eq_left (by omega), Nat.min_eq_left (by omega)]
    omega

/-! ## Point mode -/

variable {regs : Nat → BitVec 32}

theorem PointCollected.cur_le {b : PointBackend F} (h : PointCollected regs b) :
    b.bufferCur + b.vsOutputNum ≤ b.bufferEnd := by
  have hdvd : b.vsOutputNum ∣ b.bufferEnd - b.bufferCur := Nat.dvd_sub h.dvd_end h.dvd_cur
  have hle : b.vsOutputNum ≤ b.bufferEnd - b.bufferCur :=
    Nat.le_of_dvd (Nat.sub_pos_of_lt h.cur_lt) hdvd
  have := h.cur_lt
  omega

/-- A vertex is copied inside the attribute buffer. -/
theorem historyOk_submitPoint {b : PointBackend F} (h : PointCollected regs b)
    (input : AttributeBuffer F) (p : GeometryPipeline F) :
    HistoryOk (p.submitPoint regs input b).1 ↔ HistoryOk p := by
  have hpos : 0 < b.vsOutputNum := by
    rw [h.vsOutputNum]
    exact Nat.succ_pos _
  have hstores := (forall_mem_stores (F := F) .storeAttribute 16 (fun i => Iff.rfl) b.bufferCur hpos).2 (h.cur_le.trans h.bufferEnd)
  have hhistory : (p.submitPoint regs input b).1.history = p.history ++
      (List.range b.vsOutputNum).map fun k => .storeAttribute (b.bufferCur + k) := by
    unfold submitPoint
    simp only
    split
    · rfl
    · rfl
  rw [HistoryOk, hhistory, List.forall_mem_append]
  exact and_iff_left hstores

theorem collected_submitPoint {b : PointBackend F} (h : PointCollected regs b)
    (input : AttributeBuffer F) (p : GeometryPipeline F) :
    Collected regs (p.submitPoint regs input b).1 := by
  unfold submitPoint
  simp only
  by_cases hfull : b.bufferCur + b.vsOutputNum = b.bufferEnd
  · rw [if_pos hfull]
    exact ⟨h.vsOutputNum, h.bufferEnd, h.dvd_end, Nat.dvd_zero _,
      Nat.lt_of_le_of_lt (Nat.zero_le _) h.cur_lt⟩
  · rw [if_neg hfull]
    exact ⟨h.vsOutputNum, h.bufferEnd, h.dvd_end, (Nat.dvd_add_self_right).2 h.dvd_cur,
      lt_of_le_of_ne h.cur_le hfull⟩

/-! ## Primitives of variable size -/

/-- The buffer is full with the vertex announced as the last one. -/
theorem VariableCollected.full_iff {b : VariableBackend} (h : VariableCollected regs b) :
    (b.totalVertexNum - 1 == 0) = true ↔ b.received + 1 = b.announced.toNat := by
  have htotal := h.total
  have hreceived := h.received
  rw [beq_iff_eq]
  constructor
  · intro hzero
    bv_omega
  · intro hlast
    bv_omega

/-- The entries that the next vertex takes. -/
theorem VariableCollected.entries_next {b : VariableBackend} (h : VariableCollected regs b) :
    b.bufferCur + (if b.mainVertexNum ≠ 0 then b.vsOutputNum else 1) =
      1 + entries (mainVertexNum regs).toNat (Pica.vsOutputNum regs) (b.received + 1) := by
  have hmain : b.mainVertexNum ≠ 0 ↔ b.received < (mainVertexNum regs).toNat := by
    rw [Ne, ← BitVec.toNat_inj, h.main]
    change ¬ (mainVertexNum regs).toNat - b.received = 0 ↔ _
    omega
  rw [entries_succ, h.cur, h.vsOutputNum, Nat.add_assoc]
  simp only [hmain]

/-- The vertices behind an index are copied inside the uniforms as long as these hold them. -/
theorem historyOk_submitVariable {b : VariableBackend} (h : VariableCollected regs b)
    (input : AttributeBuffer F) (p : GeometryPipeline F) :
    HistoryOk (p.submitVariable input b).1 ↔ HistoryOk p ∧
      1 + entries (mainVertexNum regs).toNat (vsOutputNum regs) (b.received + 1) ≤ 96 := by
  have hpos : 0 < if b.mainVertexNum ≠ 0 then b.vsOutputNum else 1 := by
    split
    · rw [h.vsOutputNum]
      exact Nat.succ_pos _
    · exact Nat.one_pos
  have hstores := forall_mem_stores (F := F) .storeUniform 96 (fun i => Iff.rfl) b.bufferCur hpos
  have hcount : EventOk (.count b.announced.toNat (b.received + 1)
      (b.totalVertexNum - 1 == 0) : PipelineEvent F) :=
    ⟨h.received, h.full_iff⟩
  rw [HistoryOk, submitVariable]
  simp only
  rw [List.forall_mem_append, List.forall_mem_append, hstores, h.entries_next,
    List.forall_mem_singleton]
  exact and_iff_left hcount

/-- The state behind a vertex that is not the last one. -/
theorem VariableCollected.next {b : VariableBackend} (h : VariableCollected regs b)
    (hlt : b.received + 1 < b.announced.toNat) (needIndex : Bool) :
    VariableCollected regs
      { b with
        needIndex := needIndex
        mainVertexNum := if b.mainVertexNum ≠ 0 then b.mainVertexNum - 1 else b.mainVertexNum
        totalVertexNum := b.totalVertexNum - 1
        bufferCur := b.bufferCur + if b.mainVertexNum ≠ 0 then b.vsOutputNum else 1
        received := b.received + 1 } := by
  have htotal := h.total
  have hmain := h.main
  refine ⟨h.vsOutputNum, hlt, ?_, ?_, h.entries_next⟩
  · simp only
    bv_omega
  · simp only
    split
    · rename_i hne
      bv_omega
    · rename_i heq
      rw [not_not] at heq
      rw [heq] at hmain ⊢
      have hzero : (0 : BitVec 32).toNat = 0 := rfl
      omega

theorem collected_submitVariable {b : VariableBackend} (h : VariableCollected regs b)
    (hgs : useGs regs ≠ 0) (hmode : gsMode regs = 1) (input : AttributeBuffer F)
    (p : GeometryPipeline F) : Collected regs (p.submitVariable input b).1 := by
  refine ⟨hgs, hmode, h.vsOutputNum, fun hneed => ?_⟩
  refine h.next ?_ _
  have hfull : ¬ (b.totalVertexNum - 1 == 0) = true := by
    intro hfull
    rw [hfull, Bool.or_true] at hneed
    cases hneed
  rw [h.full_iff] at hfull
  have := h.received
  omega

/-! ## Primitives of fixed size -/

theorem historyOk_submitFixed {b : FixedBackend} (h : FixedCollected regs b)
    (input : AttributeBuffer F) (p : GeometryPipeline F) :
    HistoryOk (p.submitFixed input b).1 ↔
      HistoryOk p ∧ b.bufferCur + vsOutputNum regs ≤ 96 := by
  have hpos : 0 < b.vsOutputNum := by
    rw [h.vsOutputNum]
    exact Nat.succ_pos _
  have hstores := forall_mem_stores (F := F) .storeUniform 96 (fun i => Iff.rfl) b.bufferCur hpos
  rw [HistoryOk, submitFixed]
  simp only
  rw [List.forall_mem_append, hstores, h.vsOutputNum]
  rfl

theorem collected_submitFixed {b : FixedBackend} (h : FixedCollected regs b)
    (hgs : useGs regs ≠ 0) (hmode : gsMode regs = 2) (input : AttributeBuffer F)
    (p : GeometryPipeline F) : Collected regs (p.submitFixed input b).1 := by
  refine ⟨hgs, hmode, h.bufferBegin, h.vsOutputNum, h.bufferEnd, ?_⟩
  obtain ⟨k, hk, hcur⟩ := h.cur
  by_cases hfull : (b.bufferCur + b.vsOutputNum == b.bufferEnd) = true
  · refine ⟨0, Nat.zero_le _, ?_⟩
    rw [if_pos hfull, h.bufferBegin]
    rfl
  · refine ⟨k + 1, ?_, ?_⟩
    · rw [beq_iff_eq, hcur, h.vsOutputNum, h.bufferEnd, Nat.add_assoc, ← Nat.mul_succ] at hfull
      refine lt_of_le_of_ne hk fun heq => hfull ?_
      rw [heq]
    · rw [if_neg hfull, hcur, h.vsOutputNum, Nat.add_assoc, ← Nat.mul_succ]

/-! ## Runs in which everything fits -/

section Runs

variable {vertexNum : BitVec 32 → F} {run : ShaderSetup F → ShaderUnit F → ShaderUnit F}
  {values : BitVec 32 → Prop}

/-- The vertices that come belong to one of the indices. -/
def Announced (values : BitVec 32 → Prop) (p : GeometryPipeline F) : Prop :=
  match p.backend with
  | some (.variablePrimitive b) => b.needIndex = false → values b.announced
  | _ => True

theorem collected_congr {p q : GeometryPipeline F} (h : p.backend = q.backend) :
    Collected regs p ↔ Collected regs q := by
  unfold Collected
  rw [h]

theorem announced_congr {p q : GeometryPipeline F} (h : p.backend = q.backend) :
    Announced values p ↔ Announced values q := by
  unfold Announced
  rw [h]

theorem entries_mono (main n : Nat) {i j : Nat} (h : i ≤ j) :
    entries main n i ≤ entries main n j := by
  have hmin : min main i ≤ min main j := by omega
  exact Nat.add_le_add (Nat.mul_le_mul_right n hmin) (Nat.sub_le_sub_right h main)

/-- The state behind an index. -/
theorem variableCollected_index (b : VariableBackend) (hn : b.vsOutputNum = vsOutputNum regs)
    {val : BitVec 32} (hval : 0 < val.toNat) :
    VariableCollected regs
      { b with
        needIndex := false
        mainVertexNum := Pica.mainVertexNum regs
        totalVertexNum := val
        bufferCur := 1
        announced := val
        received := 0 } := by
  refine ⟨hn, hval, rfl, rfl, ?_⟩
  simp [entries]

/-- An index that announces a vertex. -/
theorem collected_submitIndex {p q : GeometryPipeline F} (h : Collected regs p) {val : BitVec 32}
    (hval : 0 < val.toNat) (hv : values val) (hq : p.submitIndex regs vertexNum val = some q) :
    Collected regs q ∧ Announced values q ∧ (HistoryOk q ↔ HistoryOk p) := by
  unfold submitIndex at hq
  split at hq
  · rename_i b hb
    cases hq
    unfold Collected at h
    rw [hb] at h
    obtain ⟨hgs, hmode, hn, _⟩ := h
    refine ⟨⟨hgs, hmode, hn, fun _ => variableCollected_index b hn hval⟩, fun _ => hv, ?_⟩
    rw [HistoryOk, List.forall_mem_append, List.forall_mem_singleton]
    exact and_iff_left (show 0 < 96 by decide)
  · cases hq

variable (run) in
/-- A vertex that is wanted. -/
theorem collected_submitVertex {p : GeometryPipeline F} (h : Collected regs p)
    (ha : Announced values p) (hneed : p.needIndexInput = false) (input : AttributeBuffer F) :
    Collected regs (p.submitVertex regs run input) ∧
      Announced values (p.submitVertex regs run input) := by
  unfold submitVertex
  unfold Collected at h
  unfold needIndexInput at hneed
  split
  · rename_i hb
    rw [hb] at h
    refine ⟨?_, ?_⟩
    · unfold Collected
      rw [hb]
      exact h
    · unfold Announced
      rw [hb]
      trivial
  · rename_i b hb
    rw [hb] at h
    have hbackend := backend_invokeIf run (p.submitPoint regs input b).2 (p.submitPoint regs input b).1
    refine ⟨(collected_congr hbackend).2 (collected_submitPoint h input p),
      (announced_congr hbackend).2 ?_⟩
    unfold Announced submitPoint
    simp only
    split
    · rename_i heq
      split at heq
      · cases heq
      · cases heq
    · trivial
  · rename_i b hb
    rw [hb] at h hneed
    unfold Announced at ha
    rw [hb] at ha
    obtain ⟨hgs, hmode, _, hcollected⟩ := h
    have hbackend := backend_invokeIf run (p.submitVariable input b).2 (p.submitVariable input b).1
    exact ⟨(collected_congr hbackend).2
        (collected_submitVariable (hcollected hneed) hgs hmode input p),
      (announced_congr hbackend).2 fun _ => ha hneed⟩
  · rename_i b hb
    rw [hb] at h
    have hbackend := backend_invokeIf run (p.submitFixed input b).2 (p.submitFixed input b).1
    exact ⟨(collected_congr hbackend).2 (collected_submitFixed h.2.2 h.1 h.2.1 input p),
      (announced_congr hbackend).2 trivial⟩

variable (run) in
/-- A vertex that is wanted, where the uniforms hold what the registers ask for. -/
theorem historyOk_submitVertex (hfits : SettingFits regs values) {p : GeometryPipeline F}
    (h : Collected regs p) (ha : Announced values p) (hneed : p.needIndexInput = false)
    (hp : HistoryOk p) (input : AttributeBuffer F) :
    HistoryOk (p.submitVertex regs run input) := by
  unfold submitVertex
  unfold Collected at h
  unfold needIndexInput at hneed
  split
  · rw [HistoryOk, List.forall_mem_append, List.forall_mem_singleton]
    exact ⟨hp, trivial⟩
  · rename_i b hb
    rw [hb] at h
    exact (historyOk_invokeIf _ _ _).2 ((historyOk_submitPoint h input p).2 hp)
  · rename_i b hb
    rw [hb] at h hneed
    unfold Announced at ha
    rw [hb] at ha
    obtain ⟨hgs, hmode, _, hcollected⟩ := h
    have hb := hcollected hneed
    have hfit := ((hfits hgs).1 hmode b.announced (ha hneed)).2
    have hle : entries (mainVertexNum regs).toNat (vsOutputNum regs) (b.received + 1) ≤ _ :=
      entries_mono _ _ hb.received
    exact (historyOk_invokeIf _ _ _).2
      ((historyOk_submitVariable hb input p).2 ⟨hp, by omega⟩)
  · rename_i b hb
    rw [hb] at h
    obtain ⟨hgs, hmode, hb⟩ := h
    have hfit := (hfits hgs).2 hmode
    obtain ⟨k, hk, hcur⟩ := hb.cur
    have hle : vsOutputNum regs * k + vsOutputNum regs ≤
        vsOutputNum regs * (fixedVertexNumMinus1 regs + 1) :=
      Nat.mul_le_mul_left (vsOutputNum regs) (Nat.succ_le_succ hk)
    exact (historyOk_invokeIf _ _ _).2
      ((historyOk_submitFixed hb input p).2 ⟨hp, by omega⟩)

/-- Where the uniforms hold what the registers ask for, a run is as expected. -/
theorem historyOk_submitAll (hfits : SettingFits regs values) (calls : List (Call F))
    {p q : GeometryPipeline F} (h : Collected regs p) (ha : Announced values p) (hp : HistoryOk p)
    (hrespects : Respects regs vertexNum run values calls p)
    (hq : submitAll regs vertexNum run calls p = some q) : HistoryOk q := by
  induction calls generalizing p with
  | nil =>
    cases hq
    exact hp
  | cons call rest ih =>
    obtain ⟨hwants, hvalues, hrest⟩ := hrespects
    obtain ⟨r, hr, hlast⟩ := Option.bind_eq_some_iff.1 hq
    cases call with
    | index val =>
      have hv := hvalues val rfl
      have hval : 0 < val.toNat := by
        have hneed : p.needIndexInput = true := hwants
        unfold needIndexInput at hneed
        unfold Collected at h
        split at hneed
        · rename_i b hb
          rw [hb] at h
          exact ((hfits h.1).1 h.2.1 val hv).1
        · cases hneed
      obtain ⟨hc, hann, hok⟩ := collected_submitIndex h hval hv hr
      exact ih hc hann (hok.2 hp) (hrest r hr) hlast
    | vertex input =>
      have hone : p.submitVertex regs run input = r := Option.some.inj hr
      obtain ⟨hc, hann⟩ := collected_submitVertex run h ha hwants input
      have hok := historyOk_submitVertex run hfits h ha hwants hp input
      rw [hone] at hc hann hok
      exact ih hc hann hok (hrest r hr) hlast

/-! ## The pipeline behind `Reconfigure` -/

/-- A new backend, by the mode of the registers. -/
def Made (regs : Nat → BitVec 32) : Backend F → Prop
  | .point b => PointCollected regs b
  | .variablePrimitive b =>
      gsMode regs = 1 ∧ b.vsOutputNum = vsOutputNum regs ∧ b.needIndex = true
  | .fixedPrimitive b =>
      gsMode regs = 2 ∧ FixedCollected regs b ∧ b.bufferCur = startIndex regs

theorem made_makeBackend {buffer : AttributeBuffer F} {indeterminate : VariableBackend}
    {backend : Backend F} (h : makeBackend regs buffer indeterminate = some backend) :
    Made regs backend ∧
      (gsMode regs = 1 → ∃ b, backend = .variablePrimitive b) ∧
      (gsMode regs = 2 → ∃ b, backend = .fixedPrimitive b) := by
  unfold makeBackend at h
  split at h
  · rename_i hmode
    unfold makePoint at h
    split at h
    · rename_i hassert
      cases h
      refine ⟨?_, fun h => ?_, fun h => ?_⟩
      · exact ⟨rfl, bitField_lt _ _ _, Nat.dvd_of_mod_eq_zero hassert.2.2, Nat.dvd_zero _,
          Nat.succ_pos _⟩
      · rw [hmode] at h
        cases h
      · rw [hmode] at h
        cases h
    · cases h
  · rename_i hmode
    unfold makeVariable at h
    split at h
    · cases h
      refine ⟨⟨hmode, rfl, rfl⟩, fun _ => ⟨_, rfl⟩, fun h => ?_⟩
      rw [hmode] at h
      cases h
    · cases h
  · rename_i hmode
    unfold makeFixed at h
    split at h
    · cases h
      refine ⟨⟨hmode, ⟨rfl, rfl, rfl, 0, Nat.zero_le _, rfl⟩, rfl⟩, fun h => ?_,
        fun _ => ⟨_, rfl⟩⟩
      rw [hmode] at h
      cases h
    · cases h
  · cases h

/-- What `Reconfigure` leaves behind. -/
theorem reconfigure_spec {buffer : AttributeBuffer F} {indeterminate : VariableBackend}
    {p q : GeometryPipeline F} (h : reconfigure regs buffer indeterminate p = some q) :
    q.history = [] ∧
      ((useGs regs = 0 ∧ q.backend = none) ∨
        (useGs regs ≠ 0 ∧ ∃ backend, q.backend = some backend ∧ Made regs backend ∧
          (gsMode regs = 1 → ∃ b, backend = .variablePrimitive b) ∧
          (gsMode regs = 2 → ∃ b, backend = .fixedPrimitive b))) := by
  unfold reconfigure at h
  split at h
  · cases h
  · split at h
    · rename_i hgs
      cases h
      exact ⟨rfl, Or.inl ⟨hgs, rfl⟩⟩
    · rename_i hgs
      split at h
      · obtain ⟨backend, hmake, heq⟩ := Option.map_eq_some_iff.1 h
        cases heq
        exact ⟨rfl, Or.inr ⟨hgs, backend, rfl, made_makeBackend hmake⟩⟩
      · cases h

variable (values) in
/-- The pipeline stands at the beginning. -/
theorem collected_reconfigure {buffer : AttributeBuffer F} {indeterminate : VariableBackend}
    {p q : GeometryPipeline F} (h : reconfigure regs buffer indeterminate p = some q) :
    Collected regs q ∧ Announced values q ∧ HistoryOk q := by
  obtain ⟨hhistory, hbackend⟩ := reconfigure_spec h
  have hok : HistoryOk q := by
    intro e he
    rw [hhistory] at he
    cases he
  rcases hbackend with ⟨hgs, hnone⟩ | ⟨hgs, backend, hsome, hmade, _⟩
  · refine ⟨?_, ?_, hok⟩
    · unfold Collected
      rw [hnone]
      exact hgs
    · unfold Announced
      rw [hnone]
      trivial
  · unfold Collected Announced
    rw [hsome]
    cases backend with
    | point b => exact ⟨hmade, trivial, hok⟩
    | variablePrimitive b =>
      obtain ⟨hmode, hn, hneed⟩ := hmade
      have habsurd (hfalse : b.needIndex = false) : False := by
        rw [hneed] at hfalse
        cases hfalse
      exact ⟨⟨hgs, hmode, hn, fun hfalse => (habsurd hfalse).elim⟩,
        fun hfalse => (habsurd hfalse).elim, hok⟩
    | fixedPrimitive b => exact ⟨⟨hgs, hmade.1, hmade.2.1⟩, trivial, hok⟩

/-! ## Runs in which something does not fit -/

section Vertices

variable (regs run)

/-- The pipeline behind so many times the same vertex. -/
def afterVertices (input : AttributeBuffer F) : Nat → GeometryPipeline F → GeometryPipeline F
  | 0, p => p
  | n + 1, p => (afterVertices input n p).submitVertex regs run input

end Vertices

theorem afterVertices_succ (input : AttributeBuffer F) (n : Nat) (p : GeometryPipeline F) :
    afterVertices regs run input n (p.submitVertex regs run input) =
      afterVertices regs run input (n + 1) p := by
  induction n with
  | zero => rfl
  | succ n ih =>
    rw [afterVertices, ih]
    rfl

theorem submitAll_vertices (input : AttributeBuffer F) (n : Nat) (p : GeometryPipeline F) :
    submitAll regs vertexNum run (List.replicate n (.vertex input)) p =
      some (afterVertices regs run input n p) := by
  induction n generalizing p with
  | zero => rfl
  | succ n ih =>
    rw [List.replicate_succ, submitAll, submit, Option.bind_some, ih, afterVertices_succ]

theorem respects_vertices (input : AttributeBuffer F) (n : Nat) (p : GeometryPipeline F)
    (h : ∀ k < n, (afterVertices regs run input k p).needIndexInput = false) :
    Respects regs vertexNum run values (List.replicate n (.vertex input)) p := by
  induction n generalizing p with
  | zero => trivial
  | succ n ih =>
    rw [List.replicate_succ]
    refine ⟨h 0 (Nat.succ_pos n), fun val hval => (by cases hval), fun q hq => ?_⟩
    rw [submit, Option.some_inj] at hq
    refine hq ▸ ih _ fun k hk => ?_
    rw [afterVertices_succ]
    exact h (k + 1) (Nat.succ_lt_succ hk)

variable (run) in
/-- Vertices behind an index, up to the one before the last. -/
theorem afterVertices_variable (input : AttributeBuffer F) {p : GeometryPipeline F}
    {b : VariableBackend} (hb : p.backend = some (.variablePrimitive b))
    (h : VariableCollected regs b) (hneed : b.needIndex = false) (n : Nat)
    (hn : b.received + n < b.announced.toNat) :
    ∃ b', (afterVertices regs run input n p).backend = some (.variablePrimitive b') ∧
      VariableCollected regs b' ∧ b'.needIndex = false ∧ b'.announced = b.announced ∧
      b'.received = b.received + n := by
  induction n with
  | zero => exact ⟨b, hb, h, hneed, rfl, rfl⟩
  | succ n ih =>
    obtain ⟨b', hb', h', hneed', hannounced, hreceived⟩ := ih (by omega)
    have hlt : b'.received + 1 < b'.announced.toNat := by
      rw [hannounced]
      omega
    have hfull : (b'.totalVertexNum - 1 == 0) = false := by
      rw [← Bool.not_eq_true, h'.full_iff]
      omega
    refine ⟨_, ?_, h'.next hlt (b'.needIndex || (b'.totalVertexNum - 1 == 0)), ?_, hannounced, ?_⟩
    · rw [afterVertices, submitVertex, hb']
      simp only
      rw [backend_invokeIf]
      rfl
    · change (b'.needIndex || (b'.totalVertexNum - 1 == 0)) = false
      rw [hneed', hfull]
      rfl
    · simp only
      omega

variable (run) in
/-- Vertices from the beginning on, up to the one before the last. -/
theorem afterVertices_fixed (input : AttributeBuffer F) {p : GeometryPipeline F} {b : FixedBackend}
    (hb : p.backend = some (.fixedPrimitive b)) (h : FixedCollected regs b)
    (hcur : b.bufferCur = startIndex regs) (n : Nat) (hn : n ≤ fixedVertexNumMinus1 regs) :
    ∃ b', (afterVertices regs run input n p).backend = some (.fixedPrimitive b') ∧
      FixedCollected regs b' ∧ b'.bufferCur = startIndex regs + vsOutputNum regs * n := by
  induction n with
  | zero => exact ⟨b, hb, h, hcur⟩
  | succ n ih =>
    obtain ⟨b', hb', h', hcur'⟩ := ih (by omega)
    have hnext : b'.bufferCur + b'.vsOutputNum =
        startIndex regs + vsOutputNum regs * (n + 1) := by
      rw [hcur', h'.vsOutputNum, Nat.add_assoc, Nat.mul_succ]
    have hfull : (b'.bufferCur + b'.vsOutputNum == b'.bufferEnd) = false := by
      rw [beq_eq_false_iff_ne, hnext, h'.bufferEnd]
      intro heq
      have hmul := Nat.add_left_cancel heq
      have := Nat.eq_of_mul_eq_mul_left (Nat.succ_pos _) hmul
      omega
    refine ⟨{ b' with bufferCur := b'.bufferCur + b'.vsOutputNum }, ?_,
      ⟨h'.bufferBegin, h'.vsOutputNum, h'.bufferEnd, n + 1, hn, hnext⟩, hnext⟩
    rw [afterVertices, submitVertex, hb']
    simp only
    rw [backend_invokeIf, submitFixed]
    simp [hfull]

/-- All that happens in the calls that are allowed is as expected. -/
def RunsOk (regs : Nat → BitVec 32) (vertexNum : BitVec 32 → F)
    (run : ShaderSetup F → ShaderUnit F → ShaderUnit F) (values : BitVec 32 → Prop)
    (p : GeometryPipeline F) : Prop :=
  ∀ calls q, Respects regs vertexNum run values calls p →
    submitAll regs vertexNum run calls p = some q → HistoryOk q

/-- What runs show about an index. -/
theorem announcementFits_of_runsOk {p : GeometryPipeline F}
    (h : RunsOk regs vertexNum run values p) {b : VariableBackend}
    (hb : p.backend = some (.variablePrimitive b)) (hneed : b.needIndex = true)
    (hn : b.vsOutputNum = vsOutputNum regs) {val : BitVec 32} (hv : values val) :
    AnnouncementFits regs val := by
  have hindex : ∃ q b', p.submitIndex regs vertexNum val = some q ∧
      q.backend = some (.variablePrimitive b') ∧ b'.needIndex = false ∧ b'.announced = val ∧
      b'.received = 0 ∧ (0 < val.toNat → VariableCollected regs b') := by
    unfold submitIndex
    rw [hb]
    exact ⟨_, _, rfl, rfl, rfl, rfl, rfl, fun hval => variableCollected_index b hn hval⟩
  obtain ⟨q, b', hq, hb', hneed', hannounced, hreceived, hcollected⟩ := hindex
  -- a call with the index, and vertices behind it
  have hrun (n : Nat)
      (hwants : ∀ k < n, (afterVertices regs run p.gsUnit.input k q).needIndexInput = false) :
      HistoryOk (afterVertices regs run p.gsUnit.input n q) := by
    refine h (.index val :: List.replicate n (.vertex p.gsUnit.input)) _ ?_ ?_
    · refine ⟨?_, fun v hval => ?_, fun r hr => ?_⟩
      · unfold needIndexInput
        rw [hb]
        exact hneed
      · cases hval
        exact hv
      · rw [submit, hq, Option.some_inj] at hr
        exact hr ▸ respects_vertices _ _ _ hwants
    · rw [submitAll, submit, hq, Option.bind_some, submitAll_vertices]
  have hwants_of (k : Nat) (c : VariableBackend)
      (hc : (afterVertices regs run p.gsUnit.input k q).backend = some (.variablePrimitive c))
      (hcneed : c.needIndex = false) :
      (afterVertices regs run p.gsUnit.input k q).needIndexInput = false := by
    unfold needIndexInput
    rw [hc]
    exact hcneed
  rcases Nat.eq_zero_or_pos val.toNat with hzero | hpos
  · -- the first vertex is one too many
    have hone := hrun 1 fun k hk => by
      rw [Nat.lt_one_iff.1 hk]
      exact hwants_of 0 b' hb' hneed'
    have hcount : (.count val.toNat 1 (b'.totalVertexNum - 1 == 0) : PipelineEvent F) ∈
        (q.submitVariable p.gsUnit.input b').1.history := by
      rw [submitVariable]
      simp [hannounced, hreceived]
    have hlast : HistoryOk (q.submitVariable p.gsUnit.input b').1 := by
      rw [afterVertices, afterVertices, submitVertex, hb'] at hone
      exact (historyOk_invokeIf _ _ _).1 hone
    have hle : 1 ≤ val.toNat := (hlast _ hcount).1
    omega
  · refine ⟨hpos, ?_⟩
    have hc := hcollected hpos
    have hstate (k : Nat) (hk : k < val.toNat) := afterVertices_variable run
      p.gsUnit.input hb' hc hneed' k (by rw [hreceived, hannounced]; omega)
    have hlast := hrun val.toNat fun k hk => by
      obtain ⟨c, hcb, _, hcneed, _⟩ := hstate k hk
      exact hwants_of k c hcb hcneed
    obtain ⟨c, hcb, hcc, _, _, hcr⟩ := hstate (val.toNat - 1) (by omega)
    rw [show val.toNat = val.toNat - 1 + 1 by omega, afterVertices, submitVertex, hcb] at hlast
    have hfit := ((historyOk_submitVariable hcc _ _).1 ((historyOk_invokeIf _ _ _).1 hlast)).2
    rw [hcr, hreceived] at hfit
    rwa [show 0 + (val.toNat - 1) + 1 = val.toNat by omega] at hfit

/-- What runs show about primitives of fixed size. -/
theorem fixed_fits_of_runsOk {p : GeometryPipeline F} (h : RunsOk regs vertexNum run values p)
    {b : FixedBackend} (hb : p.backend = some (.fixedPrimitive b)) (hc : FixedCollected regs b)
    (hcur : b.bufferCur = startIndex regs) :
    startIndex regs + vsOutputNum regs * (fixedVertexNumMinus1 regs + 1) ≤ 96 := by
  have hstate (k : Nat) (hk : k ≤ fixedVertexNumMinus1 regs) := afterVertices_fixed run
    p.gsUnit.input hb hc hcur k hk
  have hlast : HistoryOk
      (afterVertices regs run p.gsUnit.input (fixedVertexNumMinus1 regs + 1) p) := by
    refine h (List.replicate (fixedVertexNumMinus1 regs + 1) (.vertex p.gsUnit.input)) _ ?_
      (submitAll_vertices _ _ _)
    refine respects_vertices _ _ _ fun k hk => ?_
    obtain ⟨c, hcb, _⟩ := hstate k (Nat.le_of_lt_succ hk)
    unfold needIndexInput
    rw [hcb]
  obtain ⟨c, hcb, hcc, hccur⟩ := hstate (fixedVertexNumMinus1 regs) (Nat.le_refl _)
  rw [afterVertices, submitVertex, hcb] at hlast
  have hfit := ((historyOk_submitFixed hcc _ _).1 ((historyOk_invokeIf _ _ _).1 hlast)).2
  rwa [hccur, Nat.add_assoc, ← Nat.mul_succ] at hfit

/-- For registers that pass the assertions and any indices, every run of the calls stays in bounds and
has the shader invoked with the vertex announced as the last one, if the uniforms hold what the
registers ask for, and only then. -/
theorem submitted_in_bounds_iff (regs : Nat → BitVec 32) (vertexNum : BitVec 32 → F)
    (run : ShaderSetup F → ShaderUnit F → ShaderUnit F) (values : BitVec 32 → Prop)
    (buffer : AttributeBuffer F) (indeterminate : VariableBackend) (p q : GeometryPipeline F)
    (hq : reconfigure regs buffer indeterminate p = some q) :
    RunsOk regs vertexNum run values q ↔ SettingFits regs values := by
  constructor
  · intro hruns hgs
    obtain ⟨_, ⟨hzero, _⟩ | ⟨_, backend, hsome, hmade, hvariable, hfixed⟩⟩ := reconfigure_spec hq
    · exact absurd hzero hgs
    · constructor
      · intro hmode val hv
        obtain ⟨b, rfl⟩ := hvariable hmode
        exact announcementFits_of_runsOk hruns hsome hmade.2.2 hmade.2.1 hv
      · intro hmode
        obtain ⟨b, rfl⟩ := hfixed hmode
        exact fixed_fits_of_runsOk hruns hsome hmade.2.1 hmade.2.2
  · intro hfits calls r hrespects hr
    obtain ⟨hc, ha, hok⟩ := collected_reconfigure values hq
    exact historyOk_submitAll hfits calls hc ha hok hrespects hr

end Runs

/-! ## Runs of a few vertices -/

/-- Registers for a geometry shader that takes its input from the uniforms. -/
def uniformRegs (primitives outputs config mainNum : BitVec 32) (id : Nat) : BitVec 32 :=
  if id = 0x229 then primitives
  else if id = 0x24a ∨ id = 0x251 then outputs
  else if id = 0x252 then config
  else if id = 0x254 then mainNum
  else if id = 0x289 then 0x08000100
  else 0

/-- A pipeline that has not been used. -/
def emptyPipeline : GeometryPipeline Nat := ⟨none, emptySetup, emptyUnit, []⟩

/-- The members that the constructors leave out, as zeros. -/
def zeroMembers : VariableBackend := ⟨true, 0, 0, 0, 0, 0, 0⟩

/-- Two attributes for each of four main vertices and one for the others, and an index of 6. -/
theorem submitted_in_bounds_six : ∃ q,
    reconfigure (uniformRegs 0x80000002 1 1 3) (fun _ _ => 0) zeroMembers emptyPipeline = some q ∧
      RunsOk (uniformRegs 0x80000002 1 1 3) BitVec.toNat (fun _ unit => unit) (· = 6) q := by
  refine ⟨_, rfl, (submitted_in_bounds_iff _ _ _ _ (fun _ _ => 0) zeroMembers
    emptyPipeline _ rfl).2 fun _ => ⟨?_, ?_⟩⟩
  · rintro _ val rfl
    exact ⟨by decide, by decide⟩
  · intro hmode
    exact absurd hmode (by decide)

/-- The uniform that an event writes. -/
def storedUniform : PipelineEvent Nat → Option Nat
  | .storeUniform index => some index
  | _ => none

/-- The uniforms that are written behind `Reconfigure`. -/
def storedUniforms (regs : Nat → BitVec 32) (calls : List (Call Nat)) : Option (List Nat) :=
  ((reconfigure regs (fun _ _ => 0) zeroMembers emptyPipeline).bind
    (submitAll regs BitVec.toNat (fun _ unit => unit) calls)).map
      fun q => q.history.filterMap storedUniform

/-- With an index of 0 the shader is not invoked, and a vertex that was not announced is taken.  With
16 attributes for each main vertex an index of 6 fills the uniforms 1 to 96; with a start index of 100
the first vertex is written behind them. -/
theorem announced_vertices_overflow :
    (∃ q r, reconfigure (uniformRegs 0x80000002 0 1 3) (fun _ _ => 0) zeroMembers emptyPipeline =
        some q ∧
      submitAll (uniformRegs 0x80000002 0 1 3) BitVec.toNat (fun _ unit => unit)
        [.index 0, .vertex fun _ _ => 0] q = some r ∧
      r.history = [.storeUniform 0, .storeUniform 1, .count 0 1 false] ∧ ¬ HistoryOk r) ∧
    (∃ stored, storedUniforms (uniformRegs 0x80000002 15 1 5)
      (.index 6 :: List.replicate 6 (.vertex fun _ _ => 0)) = some stored ∧ 96 ∈ stored) ∧
    storedUniforms (uniformRegs 2 0 0x00640002 0) [.vertex fun _ _ => 0] = some [100] := by
  refine ⟨⟨_, _, rfl, rfl, rfl, fun h => ?_⟩, ⟨_, rfl, by decide +kernel⟩, by decide +kernel⟩
  have hcount : EventOk (.count 0 1 false : PipelineEvent Nat) := by
    refine h _ ?_
    exact List.mem_cons_of_mem _ (List.mem_cons_of_mem _ (List.mem_singleton.2 rfl))
  exact absurd hcount.1 (by decide)

end GeometryPipeline

end AzaharPlus.Pica
