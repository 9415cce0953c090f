import DemandPaging.Proofs.Machine.Balance
import DemandPaging.Proofs.Machine.Footprint
import DemandPaging.Proofs.PageTable.DumpText
import DemandPaging.Proofs.PageTable.LeafOrder

/-!
# The dump after a run

An observer that keeps the journal of a run (`keepVisits`) can say what the dump of its page table
will be like: how many tables there are, which pages are listed, and in which order, depends on the
addresses that were asked for and on which requests were answered. The page table keeps up with the
journal request by request (`Journaled`), whichever of them fail, and the end of a run leaves it as
it is.

> `Journaled.serve`: the step.
> `Journaled.callAll`: any calls.
> `dump_faithful`: the dump after any calls, and what two equal dumps have in common.
-/

namespace DemandPaging

namespace PageTable

/-- The listing has the mapped pages. -/
theorem map_vpn_rows (t : PageTable) : t.rows.map (·.vpn) = t.mappedPages := by
  unfold rows
  rw [List.map_map]
  rfl

/-- The dump of a page table in which `as` were looked for, where `pages` were ever mapped: the
numbers of tables, and one row for each page with the entry that its addresses have. -/
structure Listing (t : PageTable) (as : List Address) (pages : List Nat) : Prop where
  mids : t.mids.size = (as.map (·.top)).eraseDups.length
  leaves : t.leaves.size = (as.map (·.path)).eraseDups.length
  lines : t.dump.toList.splitOn '\n'
    = headerLine t.mids.size t.leaves.size :: t.rows.map PageEntry.row ++ [[]]
  shown : ∀ p ∈ t.rows, p.ShownBy p.row
  entries : ∀ p ∈ t.rows, ∀ a : Address, a.vpn = p.vpn → t.entryAt? a = some p.entry
  complete : ∀ v, v ∈ t.rows.map (·.vpn) ↔ v ∈ pages
  once : (t.rows.map (·.vpn)).Nodup
  order : (t.rows.map (·.vpn)).Pairwise (ListedBefore (as.map (·.path)).eraseDups)

end PageTable

namespace Machine

variable {σ : Type} {m : Machine σ} {past : List Request} {visits : List Visit}

/-- A machine and the journal of the requests so far. -/
structure Journaled (m : Machine σ) (past : List Request) (visits : List Visit) : Prop where
  requests : visits.map (·.request) = past
  balanced : m.Balanced visits
  grown : m.pageTable.Grown (touched past)

theorem journaled_build (frames : Nat) (policy : Policy) (swap : σ) :
    (build frames policy swap).Journaled [] [] where
  requests := rfl
  balanced := balanced_build frames policy swap
  grown := PageTable.grown_empty

/-- The end of a run is for the policy alone. -/
theorem Journaled.finish (h : m.Journaled past visits) : m.finish.Journaled past visits where
  requests := h.requests
  balanced := { h.balanced with consistent := h.balanced.consistent.finish }
  grown := h.grown

/-- The journal tells what is listed and in which order. -/
theorem Journaled.listing (h : m.Journaled past visits) :
    m.pageTable.Listing (touched past) (pagesAnswered visits) where
  mids := h.grown.walked.mids_eq
  leaves := h.grown.walked.leaves_eq
  lines := m.pageTable.splitOn_dump
  shown _ hp := PageTable.shownBy_of_mem_rows hp
  entries p hp a hvpn := by
    obtain ⟨v, e⟩ := p
    dsimp only at hvpn
    subst hvpn
    exact (h.balanced.consistent.rooted.mem_rows.mp hp).1
  complete v := by
    rw [PageTable.map_vpn_rows]
    exact h.balanced.mapped v
  once := m.pageTable.map_vpn_rows ▸ h.balanced.consistent.rooted.nodup_mappedPages
  order := m.pageTable.map_vpn_rows ▸ h.grown.pairwise_mappedPages

variable [BackingStore σ]

/-- Each request adds its visit to the journal and its address to those that were looked for. -/
theorem Journaled.serve (h : m.Journaled past visits) (q : Request) :
    (m.serve q).machine.Journaled (past ++ [q]) (keepVisits visits m q) where
  requests := by
    unfold keepVisits
    rw [List.map_append, h.requests]
    rfl
  balanced := h.balanced.serve q
  grown := by
    have hconsistent := h.balanced.consistent
    rw [touched_append]
    exact (serve_cases hconsistent q).tables hconsistent
      (R := PageTable.Grown) (fun _ _ a hrooted hgrown => hgrown.walk hrooted a)
      (fun _ _ _ haltered hgrown => haltered.grown hgrown) h.grown

/-- Calls are journaled request by request. -/
theorem Journaled.callAll (h : m.Journaled past visits) (calls : List Call) :
    (m.callAll calls).Journaled (past ++ m.requestsMade calls)
      (m.watchCalls keepVisits visits calls) :=
  watchCalls_induction (P := fun past m visits => m.Journaled past visits)
    (fun _ _ _ q h => h.serve q) (fun _ _ _ h => h.finish) calls h

/-- After any calls over any store, however they fail, the dump of the page table has the numbers of
middle and leaf tables in its first line, and then one line for each page that a request was ever
answered for, and for no other: leaf tables in the order in which their paths were asked for first,
and pages upwards in each of them. A line has the page's number in nine digits and says where the
page is. And if the dump after two runs is the same, of whatever machines, then the same pages are
mapped, those in memory in the same frames with the same marks, those on swap at the same
offsets. -/
theorem dump_faithful {σ : Type} [BackingStore σ] (frames : Nat) (algorithm : Algorithm)
    (seed : UInt64) (swap : σ) (calls : List Call) :
    let m₀ := build frames (.ofAlgorithm algorithm seed) swap
    let t := (m₀.callAll calls).pageTable
    let visits := m₀.watchCalls keepVisits [] calls
    visits.map (·.request) = m₀.requestsMade calls ∧
      t.Listing (touched (m₀.requestsMade calls)) (pagesAnswered visits) ∧
      ∀ {σ' : Type} [BackingStore σ'] (frames' : Nat) (algorithm' : Algorithm) (seed' : UInt64)
        (swap' : σ') (calls' : List Call),
        let m₀' := build frames' (.ofAlgorithm algorithm' seed') swap'
        let t' := (m₀'.callAll calls').pageTable
        t.dump = t'.dump → t.SameView t' := by
  intro m₀ t visits
  have h : (m₀.callAll calls).Journaled (m₀.requestsMade calls) visits :=
    (journaled_build frames _ swap).callAll calls
  refine ⟨h.requests, h.listing, ?_⟩
  intro σ' _ frames' algorithm' seed' swap' calls' m₀' t' hdump
  have h' : (m₀'.callAll calls').Journaled (m₀'.requestsMade calls') _ :=
    (journaled_build frames' _ swap').callAll calls'
  exact h.balanced.consistent.rooted.sameView_of_dump_eq h'.balanced.consistent.rooted hdump

/-- One page was evicted for another. Neither the end of the run nor a seed that the policy does not
look at can be told from the dump. -/
theorem dump_faithful_of_eviction :
    let calls : List Call := [.request (.access ⟨1, .store, ⟨0x1000⟩, 7⟩),
      .request (.access ⟨2, .load, ⟨0x2000⟩, 0⟩)]
    let m₀ := build 1 (.ofAlgorithm .lru 0) (SlotStore.empty 2)
    let m₀' := build 1 (.ofAlgorithm .lru 5) (SlotStore.empty 2)
    let t := (m₀.callAll calls).pageTable
    let t' := (m₀'.callAll (calls ++ [.finish])).pageTable
    (m₀.callAll calls).counters.evictions = 1 ∧ t.Listing [⟨0x1000⟩, ⟨0x2000⟩] [1, 2] ∧
      t.dump = t'.dump ∧ t.SameView t' := by
  intro calls m₀ m₀' t t'
  have hevictions : (m₀.callAll calls).counters.evictions = 1 := by decide +kernel
  have htouched : touched (m₀.requestsMade calls) = [⟨0x1000⟩, ⟨0x2000⟩] := by decide +kernel
  have hanswered : pagesAnswered (m₀.watchCalls keepVisits [] calls) = [1, 2] := by decide +kernel
  have hbuild : build 1 (.ofAlgorithm .lru 0) (SlotStore.empty 2) = m₀ := rfl
  have hbuild' : build 1 (.ofAlgorithm .lru 5) (SlotStore.empty 2) = m₀' := rfl
  have hsame : m₀' = m₀ := rfl
  clear_value calls m₀ m₀'
  have hfinish : (m₀'.callAll (calls ++ [.finish])).pageTable = (m₀.callAll calls).pageTable := by
    unfold callAll
    rw [hsame, List.foldl_append]
    rfl
  have hdump : t.dump = t'.dump := congrArg PageTable.dump hfinish.symm
  have hall := dump_faithful 1 .lru 0 (SlotStore.empty 2) calls
  rw [hbuild] at hall
  obtain ⟨-, hlisting, hview⟩ := hall
  have hviews := hview 1 .lru 5 (SlotStore.empty 2) (calls ++ [.finish])
  rw [hbuild'] at hviews
  rw [htouched, hanswered] at hlisting
  exact ⟨hevictions, hlisting, hdump, hviews hdump⟩

end Machine

end DemandPaging
