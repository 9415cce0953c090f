import DemandPaging.Proofs.Machine.Steps

/-!
# Sequences of calls on a machine

A `Request` is one use of memory: a bare translation, or an access of a trace. A run is a list of
requests, each served whether or not those before it were refused; an observer may keep notes on
the way (`watch`). A `Call` is a request, a whole replay, or the end of the run.

`serve_cases` is the inversion for one request. What one request preserves, a run preserves, and so
does any sequence of calls: `watch_induction`, `callAll_induction`.
-/

namespace DemandPaging

/-- What an operation was refused for. -/
def Outcome.refusal? {σ α : Type} (o : Outcome σ α) : Option PagingError :=
  match o.result with
  | .error (.refused e) => some e
  | _ => none

theorem Outcome.refusal?_eq_some {σ α : Type} {o : Outcome σ α} {e : PagingError} :
    o.refusal? = some e ↔ o.result = .error (.refused e) := by
  unfold refusal?
  split
  next e' herror => simp [herror]
  next hother =>
    refine ⟨?_, ?_⟩
    · intro hsome
      simp at hsome
    · intro herror
      exact absurd herror (hother e)

/-- One use of memory. -/
inductive Request where
  | translate (address : Address) (kind : AccessKind)
  | access (record : Trace.Record)

namespace Request

def address : Request → Address
  | translate a _ => a
  | access r => r.address

def kind : Request → AccessKind
  | translate _ kind => kind
  | access r => r.kind

/-- Whether the request puts a byte somewhere: a bare translation never does. -/
def stores : Request → Bool
  | translate _ _ => false
  | access r => r.kind.writes

end Request

/-- What a request that was not refused is answered with. -/
inductive Reply where
  | place (address : Nat)
  | checked (mismatch : Option Mismatch)
deriving DecidableEq

/-- One call on a machine. -/
inductive Call where
  | request (q : Request)
  | replay (items : List (Except LineError Trace.Record))
  | finish

namespace Machine

variable {σ : Type} [BackingStore σ]

def serve (m : Machine σ) : Request → Outcome σ Reply
  | .translate a kind => (m.translate a kind).andThen fun m place => .ok m (.place place)
  | .access r => (m.access r).andThen fun m mismatch => .ok m (.checked mismatch)

/-- The machine after a run. -/
def serveAll (m : Machine σ) (qs : List Request) : Machine σ :=
  qs.foldl (fun m q => (m.serve q).machine) m

/-- What an observer has noted after a run. Before each request it sees the machine. -/
def watch {γ : Type} (note : γ → Machine σ → Request → γ) (notes : γ) (m : Machine σ) :
    List Request → γ
  | [] => notes
  | q :: qs => watch note (note notes m q) (m.serve q).machine qs

/-- The machine after a call. -/
def call (m : Machine σ) : Call → Machine σ
  | .request q => (m.serve q).machine
  | .replay items => (m.replay items).machine
  | .finish => m.finish

def callAll (m : Machine σ) (calls : List Call) : Machine σ := calls.foldl call m

theorem serveAll_eq_callAll (m : Machine σ) (qs : List Request) :
    m.serveAll qs = m.callAll (qs.map .request) := by
  unfold serveAll callAll
  rw [List.foldl_map]
  rfl

/-! ## One request -/

/-- How a request is served. -/
inductive Serves (m : Machine σ) : Request → Except Failure Reply → Machine σ → Prop where
  | refused {q : Request} {e : PagingError} {m' : Machine σ}
      (translates : m.Translates q.address q.kind (.error (.refused e)) m') :
      Serves m q (.error (.refused e)) m'
  | translated {a : Address} {kind : AccessKind} {place : Nat} {m' : Machine σ}
      (translates : m.Translates a kind (.ok place) m') :
      Serves m (.translate a kind) (.ok (.place place)) m'
  | stored {r : Trace.Record} {place : Nat} {m' : Machine σ} {memory : Memory}
      (writes : r.kind.writes = true) (translates : m.Translates r.address r.kind (.ok place) m')
      (written : m'.memory.write? place r.value = some memory) :
      Serves m (.access r) (.ok (.checked none)) { m' with memory := memory }
  | agreed {r : Trace.Record} {place : Nat} {m' : Machine σ}
      (reads : r.kind.writes = false) (translates : m.Translates r.address r.kind (.ok place) m')
      (read : m'.memory.read? place = some r.value) :
      Serves m (.access r) (.ok (.checked none)) m'
  | differed {r : Trace.Record} {place : Nat} {m' : Machine σ} {found : UInt8}
      (reads : r.kind.writes = false) (translates : m.Translates r.address r.kind (.ok place) m')
      (read : m'.memory.read? place = some found) (ne : found ≠ r.value) :
      Serves m (.access r) (.ok (.checked (some ⟨r.line, found, r.value⟩)))
        { m' with counters := { m'.counters with mismatches := m'.counters.mismatches + 1 } }

/-- A page that was brought in is in its frame. -/
theorem BringsIn.resident {m m' : Machine σ} {r : EntryRef} {frame : Nat}
    (hbrings : m.BringsIn r (.ok frame) m') : m'.pageTable.Resident r frame := by
  cases hbrings with
  | firstTouch _ page _ _ _ => exact (PageTable.resident_modify_place page).mpr (Or.inl ⟨rfl, rfl⟩)
  | swappedIn _ page _ _ _ _ =>
    exact (PageTable.resident_modify_place page).mpr (Or.inl ⟨rfl, rfl⟩)

/-- A translation that succeeds ends at the address's offset in the frame of its page. -/
theorem Translates.place_eq {m m' : Machine σ} {a : Address} {kind : AccessKind} {place : Nat}
    (ht : m.Translates a kind (.ok place) m') :
    ∃ frame, place = Memory.addressOf frame + a.offset ∧ a.offset < pageBytes ∧
      m'.pageTable.Resident (m.refOf a) frame := by
  cases ht with
  | @hit frame h resident =>
    exact ⟨frame, rfl, by simpa [Address.inFrame] using h,
      (PageTable.resident_modify fun e => e.frame?_touch kind).mpr resident⟩
  | @fault _ frame _ h _ _ brings =>
    exact ⟨frame, rfl, by simpa [Address.inFrame] using h,
      (PageTable.resident_modify fun e => e.frame?_touch kind).mpr brings.resident⟩

/-- The frame that a translation ends in holds bytes. -/
theorem Translates.bytes {m m' : Machine σ} {a : Address} {kind : AccessKind} {place : Nat}
    (h : m.Consistent) (ht : m.Translates a kind (.ok place) m') :
    ∃ frame bytes, place = Memory.addressOf frame + a.offset ∧ a.offset < pageBytes ∧
      m'.pageTable.Resident (m.refOf a) frame ∧ m'.memory.page? frame = some bytes := by
  obtain ⟨frame, hplace, hoffset, hresident⟩ := ht.place_eq
  have h' := ht.consistent h
  obtain ⟨bytes, hbytes⟩ := Memory.page?_isSome (m := m'.memory) (h'.frames ▸ h'.lt_size hresident)
  exact ⟨frame, bytes, hplace, hoffset, hresident, hbytes⟩

/-- An access is served in one of the ways of `Serves`. -/
theorem access_cases {m : Machine σ} (h : m.Consistent) (r : Trace.Record) :
    m.Serves (.access r) ((m.access r).result.map .checked) (m.access r).machine := by
  have ht := translate_cases h r.address r.kind
  unfold access
  rw [Outcome.result_after, Outcome.machine_after]
  apply Outcome.andThen_elim (P := fun result m' => m.Serves (.access r) (result.map .checked) m')
  · intro place hok
    rw [hok] at ht
    -- the place lies in a frame that exists, so neither writing nor reading can fail there
    obtain ⟨frame, bytes, hplace, hoffset, -, hbytes⟩ := ht.bytes h
    split
    next hwrites =>
      obtain ⟨memory, hwritten, -⟩ := Memory.write?_addressOf_add hbytes hoffset r.value
      rw [← hplace] at hwritten
      unfold store
      rw [hwritten]
      exact .stored hwrites ht hwritten
    next hreads =>
      have hread := Memory.read?_addressOf_add (m.translate r.address r.kind).machine.memory frame
        hoffset
      rw [← hplace, hbytes, Option.map_some] at hread
      unfold compare
      rw [hread]
      dsimp only
      split
      next heq => exact .agreed (by simpa using hreads) ht (heq ▸ hread)
      next hne => exact .differed (by simpa using hreads) ht hread hne
  · intro failure herror
    rw [herror] at ht
    obtain ⟨e, rfl⟩ := ht.refusal
    exact .refused ht

/-- On a consistent machine every request is served in one of the ways of `Serves`. -/
theorem serve_cases {m : Machine σ} (h : m.Consistent) (q : Request) :
    m.Serves q (m.serve q).result (m.serve q).machine := by
  cases q with
  | translate a kind =>
    have ht := translate_cases h a kind
    apply Outcome.andThen_elim (P := m.Serves (.translate a kind))
    · intro place hok
      exact .translated (hok ▸ ht)
    · intro failure herror
      rw [herror] at ht
      obtain ⟨e, rfl⟩ := ht.refusal
      exact .refused ht
  | access r =>
    have hr := access_cases h r
    apply Outcome.andThen_elim (P := m.Serves (.access r))
    · intro mismatch hok
      rw [hok] at hr
      exact hr
    · intro failure herror
      rw [herror] at hr
      exact hr

/-- A request is a translation, and what it does beside that it does to the bytes of memory and to
the count of mismatches. -/
theorem Serves.translates {m m' : Machine σ} {q : Request} {result : Except Failure Reply}
    (hserves : m.Serves q result m') :
    ∃ placed m₁ memory mismatches, m.Translates q.address q.kind placed m₁ ∧
      m' = { m₁ with
        memory := memory, counters := { m₁.counters with mismatches := mismatches } } ∧
      ∀ failure, result = .error failure ↔ placed = .error failure := by
  cases hserves with
  | refused translates => exact ⟨_, _, _, _, translates, rfl, by simp⟩
  | translated translates => exact ⟨_, _, _, _, translates, rfl, by simp⟩
  | stored _ translates _ => exact ⟨_, _, _, _, translates, rfl, by simp⟩
  | agreed _ translates _ => exact ⟨_, _, _, _, translates, rfl, by simp⟩
  | differed _ translates _ _ => exact ⟨_, _, _, _, translates, rfl, by simp⟩

/-- A request leaves the machine consistent. -/
theorem Serves.consistent {m m' : Machine σ} {q : Request} {result : Except Failure Reply}
    (h : m.Consistent) (hs : m.Serves q result m') : m'.Consistent := by
  cases hs with
  | refused translates => exact translates.consistent h
  | translated translates => exact translates.consistent h
  | stored _ translates written =>
    have h' := translates.consistent h
    obtain ⟨frame, bytes, hplace, hoffset, -, hbytes⟩ := translates.bytes h
    obtain ⟨memory, hwritten, hframes, -⟩ := Memory.write?_addressOf_add hbytes hoffset _
    rw [← hplace, written, Option.some.injEq] at hwritten
    exact h'.withMemory (hwritten ▸ hframes)
  | agreed _ translates _ => exact translates.consistent h
  | differed _ translates _ _ =>
    have h' := translates.consistent h
    exact h'.of_eq h'.rooted (fun _ _ => Iff.rfl) rfl rfl h'.counted

theorem Consistent.serve {m : Machine σ} (h : m.Consistent) (q : Request) :
    (m.serve q).machine.Consistent :=
  (serve_cases h q).consistent h

/-! ## Runs -/

/-- What every request preserves of the requests so far, the machine and an observer's notes holds
after a run. -/
theorem history_induction {γ : Type} {note : γ → Machine σ → Request → γ}
    {P : List Request → Machine σ → γ → Prop}
    (step : ∀ past m notes q, P past m notes →
      P (past ++ [q]) (m.serve q).machine (note notes m q)) :
    ∀ (qs : List Request) {past : List Request} {m : Machine σ} {notes : γ}, P past m notes →
      P (past ++ qs) (m.serveAll qs) (m.watch note notes qs)
  | [], past, m, notes, h => by
    rw [List.append_nil]
    exact h
  | q :: qs, past, m, notes, h => by
    rw [List.append_cons]
    exact history_induction step qs (step past m notes q h)

/-- What every request preserves of a machine and an observer's notes holds after a run. -/
theorem watch_induction {γ : Type} {note : γ → Machine σ → Request → γ}
    {P : Machine σ → γ → Prop}
    (step : ∀ m notes q, P m notes → P (m.serve q).machine (note notes m q)) :
    ∀ (qs : List Request) {m : Machine σ} {notes : γ}, P m notes →
      P (m.serveAll qs) (m.watch note notes qs)
  | [], _, _, h => h
  | q :: qs, m, notes, h => watch_induction step qs (step m notes q h)

/-- What every request preserves of a machine holds after a run. -/
theorem serveAll_induction {P : Machine σ → Prop} (step : ∀ m q, P m → P (m.serve q).machine) :
    ∀ (qs : List Request) {m : Machine σ}, P m → P (m.serveAll qs)
  | [], _, h => h
  | q :: qs, m, h => serveAll_induction step qs (step m q h)

/-- The last request is served by the machine that the others leave. -/
theorem serveAll_concat (m : Machine σ) (qs : List Request) (q : Request) :
    m.serveAll (qs ++ [q]) = ((m.serveAll qs).serve q).machine := by
  unfold serveAll
  rw [List.foldl_append]
  rfl

/-- An observer takes up a run where another has left it. -/
theorem watch_append {γ : Type} (note : γ → Machine σ → Request → γ) :
    ∀ (qs rest : List Request) (m : Machine σ) (notes : γ),
      m.watch note notes (qs ++ rest) = (m.serveAll qs).watch note (m.watch note notes qs) rest
  | [], _, _, _ => rfl
  | q :: qs, rest, m, notes => watch_append note qs rest (m.serve q).machine (note notes m q)

/-- A request differs from its access in the reply only. -/
theorem serve_access (m : Machine σ) (r : Trace.Record) :
    (m.serve (.access r)).result = (m.access r).result.map .checked ∧
      (m.serve (.access r)).machine = (m.access r).machine := by
  simp only [serve]
  generalize m.access r = o
  obtain ⟨result, m', events⟩ := o
  cases result with
  | ok _ => exact ⟨rfl, rfl⟩
  | error _ => exact ⟨rfl, rfl⟩

/-- A replay is a run of accesses, up to the first that fails. -/
theorem replay_induction {P : Machine σ → Prop}
    (step : ∀ m q, P m → P (m.serve q).machine) :
    ∀ (items : List (Except LineError Trace.Record)) {m : Machine σ}, P m →
      P (m.replay items).machine
  | [], _, h => h
  | .error e :: _, _, h => h
  | .ok r :: rest, m, h => by
    have haccess : P (m.access r).machine := (serve_access m r).2 ▸ step m (.access r) h
    rw [replay_ok]
    apply Outcome.andThen_elim (P := fun _ m' => P m')
    · intro mismatch _
      exact replay_induction step rest haccess
    · intro failure _
      exact haccess

/-- A replay fails at a line that is no access, or as one of its accesses does. -/
theorem replay_failure {P : Machine σ → Prop} {Q : Address → Failure → Prop}
    (step : ∀ m q, P m → P (m.serve q).machine)
    (fails : ∀ m q failure, P m → (m.serve q).result = .error failure → Q q.address failure) :
    ∀ (items : List (Except LineError Trace.Record)) {m : Machine σ} {failure : Failure}, P m →
      (m.replay items).result = .error failure →
        (∃ e, .error e ∈ items ∧ failure = .refused (.trace e)) ∨
          ∃ r, .ok r ∈ items ∧ Q r.address failure
  | [], m, failure, _, hfail => by
    rw [replay_nil] at hfail
    simp [Outcome.ok] at hfail
  | .error e :: _, m, failure, _, hfail => by
    rw [replay_error] at hfail
    exact Or.inl ⟨e, by simp, (Except.error.inj hfail).symm⟩
  | .ok r :: rest, m, failure, h, hfail => by
    obtain ⟨hresult, hmachine⟩ := serve_access m r
    rw [replay_ok] at hfail
    revert hfail
    apply Outcome.andThen_elim (P := fun result _ => result = .error failure →
      (∃ e, .error e ∈ (.ok r :: rest) ∧ failure = .refused (.trace e)) ∨
        ∃ r', .ok r' ∈ (.ok r :: rest) ∧ Q r'.address failure)
    · intro mismatch _ hfail
      have hrest : P (m.access r).machine := hmachine ▸ step m (.access r) h
      rcases replay_failure step fails rest hrest hfail with ⟨e, he, heq⟩ | ⟨r', hr', hq⟩
      · exact Or.inl ⟨e, List.mem_cons_of_mem _ he, heq⟩
      · exact Or.inr ⟨r', List.mem_cons_of_mem _ hr', hq⟩
    · intro failure' herror hfail
      rw [herror] at hresult
      have hq : Q r.address failure' := fails m (.access r) failure' h hresult
      exact Or.inr ⟨r, by simp, Except.error.inj hfail ▸ hq⟩

/-- What every request preserves, and the end of a run too, holds after any calls. -/
theorem callAll_induction {P : Machine σ → Prop}
    (step : ∀ m q, P m → P (m.serve q).machine) (finish : ∀ m, P m → P m.finish) :
    ∀ (calls : List Call) {m : Machine σ}, P m → P (m.callAll calls)
  | [], _, h => h
  | c :: calls, m, h => by
    have hcall : P (m.call c) := by
      cases c with
      | request q => exact step m q h
      | replay items => exact replay_induction step items h
      | finish => exact finish m h
    exact callAll_induction step finish calls hcall

/-- Calls leave the machine consistent. -/
theorem Consistent.callAll {m : Machine σ} (h : m.Consistent) (calls : List Call) :
    (m.callAll calls).Consistent :=
  callAll_induction (fun _ q h => h.serve q) (fun _ h => h.finish) calls h

end Machine

end DemandPaging
