import DemandPaging.Proofs.CommandLine.Spelling
import DemandPaging.Proofs.Text.Digits

/-!
# The options that arguments give

Which options the things said amount to is read off them without taking them one by one (`Given`):
nothing but verbosity is said twice, each option has the value that its text denotes, the seed has a
default, and the switches are counted. What a draft holds on the way (`Holds`) is the same for the
things taken so far; one more thing keeps it (`Holds.take`), so it is so after all of them.

The switches and the values are separate parts of the options. So if arguments differ in nothing
but their switches, they ask for the same run, but for what it logs (`Options.quiet`).

> `parse_eq_run_iff`: arguments are accepted exactly if they say what gives options.
> `quiet_eq_of_given`: the same values give the same options, switches aside.
-/

namespace DemandPaging.CommandLine

open Text (Numeral)

/-- Two things that may both be said: an option has one value, and one request for debugging is
enough. -/
def Said.Apart : Said → Said → Prop
  | debug, debug => False
  | value o _, value o' _ => o ≠ o'
  | _, _ => True

/-- The options that are given by what is said. Numbers are decimal and have 64 bits; a file must
have a name. -/
structure Options.Given (o : Options) (said : List Said) : Prop where
  once : said.Pairwise Said.Apart
  traceFile : .value .traceFile o.traceFile ∈ said
  path : o.traceFile ≠ ""
  frames : ∃ text, .value .frames text ∈ said ∧ Numeral 10 (2 ^ 64) text.toList o.frames
  swapPages : ∃ text, .value .swapPages text ∈ said ∧ Numeral 10 (2 ^ 64) text.toList o.swapPages
  algorithm : .value .algorithm o.algorithm ∈ said
  seed : (∃ text, .value .seed text ∈ said ∧ Numeral 10 (2 ^ 64) text.toList o.seed.toNat) ∨
    (∀ text, .value .seed text ∉ said) ∧ o.seed = 369
  debug : o.debug = true ↔ .debug ∈ said
  verbosity : o.verbosity = said.count .verbose

/-! ## One value for an option -/

/-- One text is said for an option. -/
theorem text_unique {said : List Said} (h : said.Pairwise Said.Apart) {o : ValueOption}
    {text text' : String} (hmem : .value o text ∈ said) (hmem' : .value o text' ∈ said) :
    text = text' := by
  induction said with
  | nil => cases hmem
  | cons s said ih =>
    obtain ⟨hfirst, hrest⟩ := List.pairwise_cons.mp h
    rcases List.mem_cons.mp hmem with rfl | hin
    · rcases List.mem_cons.mp hmem' with heq | hin'
      · exact (Said.value.inj heq).2.symm
      · exact absurd rfl (hfirst _ hin')
    · rcases List.mem_cons.mp hmem' with rfl | hin'
      · exact absurd rfl (hfirst _ hin)
      · exact ih hrest hin hin'

/-! ## What a draft holds -/

namespace Draft

/-- The draft has the value that the text denotes for an option. -/
def Shows (d : Draft) (text : String) : ValueOption → Prop
  | .traceFile => text ≠ "" ∧ d.traceFile = some text
  | .frames => ∃ n, Numeral 10 (2 ^ 64) text.toList n ∧ d.frames = some n
  | .swapPages => ∃ n, Numeral 10 (2 ^ 64) text.toList n ∧ d.swapPages = some n
  | .algorithm => d.algorithm = some text
  | .seed => ∃ n, Numeral 10 (2 ^ 64) text.toList n ∧ d.seed = some (UInt64.ofNat n)

/-- The draft has what was said, and nothing else. -/
structure Holds (d : Draft) (said : List Said) : Prop where
  once : said.Pairwise Said.Apart
  values : ∀ o text, .value o text ∈ said → d.Shows text o
  said_of_has : ∀ o, d.has o = true → ∃ text, .value o text ∈ said
  debug : d.debug = true ↔ .debug ∈ said
  verbosity : d.verbosity = said.count .verbose

/-- A number is read from a text that is its numeral. -/
theorem number_eq_some {α : Type} {f : Nat → α} {text : String} {a : α} :
    (Text.read? 10 UInt64.size text.toList).map f = some a ↔
      ∃ n, Numeral 10 (2 ^ 64) text.toList n ∧ f n = a := by
  rw [Option.map_eq_some_iff]
  exact exists_congr fun n => and_congr_left' Text.read?_eq_some_iff

variable {d d' : Draft} {o : ValueOption} {text : String}

/-- What was entered for an option is what its text denotes. -/
theorem shows_of_enter? (h : d.enter? o text = some d') : d'.Shows text o := by
  cases o with
  | traceFile =>
    simp only [enter?, Option.ite_none_left_eq_some, Option.some.injEq] at h
    obtain ⟨hne, rfl⟩ := h
    refine ⟨?_, rfl⟩
    rintro rfl
    exact hne rfl
  | algorithm =>
    obtain rfl := Option.some.inj h
    rfl
  | frames =>
    obtain ⟨n, hn, rfl⟩ := number_eq_some.mp h
    exact ⟨n, hn, rfl⟩
  | swapPages =>
    obtain ⟨n, hn, rfl⟩ := number_eq_some.mp h
    exact ⟨n, hn, rfl⟩
  | seed =>
    obtain ⟨n, hn, rfl⟩ := number_eq_some.mp h
    exact ⟨n, hn, rfl⟩

/-- Another option is left as it is. -/
theorem enter?_other (h : d.enter? o text = some d') {o' : ValueOption} (hne : o' ≠ o) :
    d'.has o' = d.has o' ∧ ∀ text', d'.Shows text' o' ↔ d.Shows text' o' := by
  cases o with
  | traceFile =>
    simp only [enter?, Option.ite_none_left_eq_some, Option.some.injEq] at h
    obtain ⟨-, rfl⟩ := h
    cases o' with
    | traceFile => exact absurd rfl hne
    | _ => exact ⟨rfl, fun _ => Iff.rfl⟩
  | algorithm =>
    obtain rfl := Option.some.inj h
    cases o' with
    | algorithm => exact absurd rfl hne
    | _ => exact ⟨rfl, fun _ => Iff.rfl⟩
  | frames =>
    obtain ⟨n, -, rfl⟩ := number_eq_some.mp h
    cases o' with
    | frames => exact absurd rfl hne
    | _ => exact ⟨rfl, fun _ => Iff.rfl⟩
  | swapPages =>
    obtain ⟨n, -, rfl⟩ := number_eq_some.mp h
    cases o' with
    | swapPages => exact absurd rfl hne
    | _ => exact ⟨rfl, fun _ => Iff.rfl⟩
  | seed =>
    obtain ⟨n, -, rfl⟩ := number_eq_some.mp h
    cases o' with
    | seed => exact absurd rfl hne
    | _ => exact ⟨rfl, fun _ => Iff.rfl⟩

/-- Entering a value leaves the switches alone. -/
theorem enter?_switches (h : d.enter? o text = some d') :
    d'.debug = d.debug ∧ d'.verbosity = d.verbosity := by
  cases o with
  | traceFile =>
    simp only [enter?, Option.ite_none_left_eq_some, Option.some.injEq] at h
    obtain ⟨-, rfl⟩ := h
    exact ⟨rfl, rfl⟩
  | algorithm =>
    obtain rfl := Option.some.inj h
    exact ⟨rfl, rfl⟩
  | _ =>
    obtain ⟨n, -, rfl⟩ := number_eq_some.mp h
    exact ⟨rfl, rfl⟩

/-- A text that denotes a value can be entered. -/
theorem exists_enter? (h : ∃ d : Draft, d.Shows text o) (d : Draft) :
    ∃ d', d.enter? o text = some d' := by
  obtain ⟨shown, hshown⟩ := h
  cases o with
  | traceFile => exact ⟨_, if_neg (mt String.isEmpty_iff.mp hshown.1)⟩
  | algorithm => exact ⟨_, rfl⟩
  | _ =>
    obtain ⟨n, hn, -⟩ := hshown
    exact ⟨_, number_eq_some.mpr ⟨n, hn, rfl⟩⟩

/-- An option that shows a value has one. -/
theorem has_of_shows (h : d.Shows text o) : d.has o = true := by
  cases o with
  | traceFile => exact Option.isSome_of_eq_some h.2
  | algorithm => exact Option.isSome_of_eq_some h
  | _ =>
    obtain ⟨n, -, hn⟩ := h
    exact Option.isSome_of_eq_some hn

/-- Switches are no part of the values. -/
theorem shows_switches (debug : Bool) (verbosity : Nat) :
    ({ d with debug := debug, verbosity := verbosity } : Draft).Shows text o ↔ d.Shows text o := by
  cases o with
  | _ => rfl

theorem has_switches (debug : Bool) (verbosity : Nat) :
    ({ d with debug := debug, verbosity := verbosity } : Draft).has o = d.has o := by
  cases o with
  | _ => rfl

/-! ## Holding what was said -/

variable {said : List Said} {s : Said}

/-- Debugging is entered once, and changes no value. -/
theorem take?_debug (h : d.take? .debug = some d') :
    d.debug = false ∧ d' = { d with debug := true, verbosity := d.verbosity } := by
  simp only [take?, Option.ite_none_left_eq_some, Option.some.injEq, Bool.not_eq_true] at h
  exact ⟨h.1, h.2.symm⟩

/-- Verbosity is counted, and changes no value. -/
theorem take?_verbose (h : d.take? .verbose = some d') :
    d' = { d with debug := d.debug, verbosity := d.verbosity + 1 } :=
  (Option.some.inj h).symm

/-- A value is entered for an option that had none. -/
theorem take?_value (h : d.take? (.value o text) = some d') :
    d.has o = false ∧ d.enter? o text = some d' := by
  simpa only [take?, Option.ite_none_left_eq_some, Bool.not_eq_true] using h

/-- What can be taken may be said besides all that was said. -/
theorem Holds.apart (h : d.Holds said) (htake : d.take? s = some d') :
    ∀ s' ∈ said, Said.Apart s' s := by
  intro s' hmem
  cases s with
  | verbose =>
    cases s' with
    | _ => trivial
  | debug =>
    cases s' with
    | debug =>
      have hdebug := h.debug.mpr hmem
      rw [(take?_debug htake).1] at hdebug
      cases hdebug
    | _ => trivial
  | value o text =>
    cases s' with
    | value o' text' =>
      rintro rfl
      have hhas := has_of_shows (h.values o' text' hmem)
      rw [(take?_value htake).1] at hhas
      cases hhas
    | _ => trivial

/-- A switch that is said leaves the values as they are. -/
theorem Holds.switched (h : d.Holds said) (hs : ∀ o text, s ≠ .value o text) (debug : Bool)
    (verbosity : Nat) :
    let d' := { d with debug := debug, verbosity := verbosity }
    (∀ o text, .value o text ∈ said ++ [s] → d'.Shows text o) ∧
      ∀ o, d'.has o = true → ∃ text, .value o text ∈ said ++ [s] := by
  refine ⟨fun o text hmem => ?_, fun o hhas => ?_⟩
  · rcases List.mem_append.mp hmem with hold | hnew
    · exact (shows_switches debug verbosity).mpr (h.values o text hold)
    · exact absurd (List.mem_singleton.mp hnew).symm (hs o text)
  · rw [has_switches] at hhas
    obtain ⟨text, hmem⟩ := h.said_of_has o hhas
    exact ⟨text, List.mem_append_left _ hmem⟩

/-- With one more thing said, the draft holds that as well. -/
theorem Holds.take (h : d.Holds said) (htake : d.take? s = some d') : d'.Holds (said ++ [s]) := by
  have honce : (said ++ [s]).Pairwise Said.Apart :=
    List.pairwise_append.mpr ⟨h.once, List.pairwise_singleton _ _, fun s' hmem _ hs =>
      List.mem_singleton.mp hs ▸ h.apart htake s' hmem⟩
  cases s with
  | debug =>
    obtain ⟨-, rfl⟩ := take?_debug htake
    obtain ⟨hvalues, hsaid⟩ :=
      h.switched (s := .debug) (fun _ _ => Said.noConfusion) true d.verbosity
    exact ⟨honce, hvalues, hsaid, by simp, by simp [h.verbosity]⟩
  | verbose =>
    obtain rfl := take?_verbose htake
    obtain ⟨hvalues, hsaid⟩ :=
      h.switched (s := .verbose) (fun _ _ => Said.noConfusion) d.debug (d.verbosity + 1)
    exact ⟨honce, hvalues, hsaid, by simp [h.debug], by simp [h.verbosity]⟩
  | value o text =>
    obtain ⟨hhas, hentered⟩ := take?_value htake
    obtain ⟨hdebug, hverbosity⟩ := enter?_switches hentered
    refine ⟨honce, fun o' text' hmem => ?_, fun o' hhas' => ?_, by simp [hdebug, h.debug],
      by simp [hverbosity, h.verbosity]⟩
    · rcases List.mem_append.mp hmem with hold | hnew
      · have hshows := h.values o' text' hold
        have hne : o' ≠ o := by
          rintro rfl
          rw [has_of_shows hshows] at hhas
          cases hhas
        exact ((enter?_other hentered hne).2 text').mpr hshows
      · obtain ⟨rfl, rfl⟩ := Said.value.inj (List.mem_singleton.mp hnew)
        exact shows_of_enter? hentered
    · by_cases ho : o' = o
      · exact ⟨text, List.mem_append_right _ (by simp [ho])⟩
      · rw [(enter?_other hentered ho).1] at hhas'
        obtain ⟨text', hmem⟩ := h.said_of_has o' hhas'
        exact ⟨text', List.mem_append_left _ hmem⟩

/-- Things that are taken in turn are held in the end. -/
theorem Holds.takeAll {before : List Said} (h : d.Holds before)
    (htaken : d.takeAll? said = some d') : d'.Holds (before ++ said) := by
  induction said generalizing d before with
  | nil =>
    obtain rfl := Option.some.inj htaken
    rwa [List.append_nil]
  | cons s said ih =>
    obtain ⟨between, hfirst, hrest⟩ := takeAll?_cons_eq_some.mp htaken
    have hall := ih (h.take hfirst) hrest
    rwa [List.append_assoc] at hall

theorem holds_empty : empty.Holds [] where
  once := .nil
  values := fun _ _ hmem => absurd hmem List.not_mem_nil
  said_of_has := fun o hhas => by cases o with | _ => cases hhas
  debug := by simp [empty]
  verbosity := rfl

/-- What may be said, and denotes something, can be taken. -/
theorem Holds.exists_take (h : d.Holds said) (hapart : ∀ s' ∈ said, Said.Apart s' s)
    (hshows : ∀ o text, s = .value o text → ∃ d : Draft, d.Shows text o) :
    ∃ d', d.take? s = some d' := by
  cases s with
  | verbose => exact ⟨_, rfl⟩
  | debug =>
    refine ⟨_, if_neg fun hdebug => ?_⟩
    exact hapart _ (h.debug.mp hdebug)
  | value o text =>
    have hhas : ¬ d.has o = true := fun hhas => by
      obtain ⟨text', hmem⟩ := h.said_of_has o hhas
      exact hapart _ hmem rfl
    obtain ⟨d', hentered⟩ := exists_enter? (hshows o text rfl) d
    exact ⟨d', (if_neg hhas).trans hentered⟩

/-- Things that denote something and may all be said are taken. -/
theorem Holds.exists_takeAll {before : List Said} (h : d.Holds before)
    (honce : (before ++ said).Pairwise Said.Apart)
    (hshows : ∀ o text, .value o text ∈ said → ∃ d : Draft, d.Shows text o) :
    ∃ d', d.takeAll? said = some d' := by
  induction said generalizing d before with
  | nil => exact ⟨d, rfl⟩
  | cons s said ih =>
    obtain ⟨-, -, hacross⟩ := List.pairwise_append.mp honce
    obtain ⟨between, hfirst⟩ := h.exists_take (fun s' hmem => hacross s' hmem s List.mem_cons_self)
      fun o text hs => hshows o text (hs ▸ List.mem_cons_self)
    rw [List.append_cons] at honce
    obtain ⟨d', hrest⟩ := ih (h.take hfirst) honce fun o text hmem =>
      hshows o text (List.mem_cons_of_mem s hmem)
    exact ⟨d', takeAll?_cons_eq_some.mpr ⟨between, hfirst, hrest⟩⟩

end Draft

/-! ## Options and what is said -/

variable {o : Options} {d : Draft} {said : List Said}

/-- A draft asks for a run if it has all but the seed, which has a default. -/
theorem Draft.request_eq_run_iff : d.request = .run o ↔
    d.traceFile = some o.traceFile ∧ d.frames = some o.frames ∧ d.swapPages = some o.swapPages ∧
      d.algorithm = some o.algorithm ∧ d.seed.getD 369 = o.seed ∧ d.debug = o.debug ∧
      d.verbosity = o.verbosity := by
  obtain ⟨traceFile?, frames?, swapPages?, algorithm?, seed?, debug, verbosity⟩ := d
  obtain ⟨traceFile, frames, swapPages, algorithm, seed, debug', verbosity'⟩ := o
  cases traceFile? with
  | none => simp [request]
  | some traceFile =>
    cases frames? with
    | none => simp [request]
    | some frames =>
      cases swapPages? with
      | none => simp [request]
      | some swapPages =>
        cases algorithm? with
        | none => simp [request]
        | some algorithm => simp [request, Config.defaultSeed]

/-- Every value of a draft was said. -/
theorem Draft.Holds.exists_said (h : d.Holds said) (option : ValueOption)
    (hhas : d.has option = true) : ∃ text, .value option text ∈ said ∧ d.Shows text option := by
  obtain ⟨text, hmem⟩ := h.said_of_has option hhas
  exact ⟨text, hmem, h.values option text hmem⟩

/-- A draft that asks for a run asks for the options that were given. -/
theorem Draft.Holds.given (h : d.Holds said) (hrun : d.request = .run o) : o.Given said := by
  obtain ⟨hfile, hframes, hswap, halgorithm, hseed, hdebug, hverbosity⟩ :=
    request_eq_run_iff.mp hrun
  obtain ⟨file, hfileSaid, hpath, hfile'⟩ :=
    h.exists_said .traceFile (Option.isSome_of_eq_some hfile)
  obtain rfl : o.traceFile = file := Option.some.inj (hfile.symm.trans hfile')
  obtain ⟨frames, hframesSaid, n, hn, hframes'⟩ :=
    h.exists_said .frames (Option.isSome_of_eq_some hframes)
  obtain rfl : o.frames = n := Option.some.inj (hframes.symm.trans hframes')
  obtain ⟨swap, hswapSaid, k, hk, hswap'⟩ :=
    h.exists_said .swapPages (Option.isSome_of_eq_some hswap)
  obtain rfl : o.swapPages = k := Option.some.inj (hswap.symm.trans hswap')
  obtain ⟨name, hnameSaid, hname⟩ :=
    h.exists_said .algorithm (Option.isSome_of_eq_some halgorithm)
  obtain rfl : o.algorithm = name := Option.some.inj (halgorithm.symm.trans hname)
  refine ⟨h.once, hfileSaid, hpath, ⟨frames, hframesSaid, hn⟩, ⟨swap, hswapSaid, hk⟩, hnameSaid, ?_,
    hdebug ▸ h.debug, hverbosity ▸ h.verbosity⟩
  cases hseed? : d.seed with
  | none =>
    rw [hseed?] at hseed
    refine .inr ⟨fun text hmem => ?_, hseed.symm⟩
    obtain ⟨m, -, hm⟩ := h.values _ _ hmem
    rw [hseed?] at hm
    cases hm
  | some seed =>
    obtain ⟨text, hseedSaid, m, hm, hseed'⟩ :=
      h.exists_said .seed (Option.isSome_of_eq_some hseed?)
    rw [hseed', Option.getD_some] at hseed
    refine .inl ⟨text, hseedSaid, ?_⟩
    rwa [← hseed, UInt64.toNat_ofNat_of_lt' hm.lt]

/-- The one value that is said for an option is the one that is given. -/
theorem Options.Given.exists_shows (h : o.Given said) {option : ValueOption} {text : String}
    (hmem : .value option text ∈ said) : ∃ d : Draft, d.Shows text option := by
  cases option with
  | traceFile =>
    obtain rfl := text_unique h.once h.traceFile hmem
    exact ⟨{ Draft.empty with traceFile := some o.traceFile }, h.path, rfl⟩
  | algorithm => exact ⟨{ Draft.empty with algorithm := some text }, rfl⟩
  | frames =>
    obtain ⟨text', hmem', hn⟩ := h.frames
    obtain rfl := text_unique h.once hmem' hmem
    exact ⟨{ Draft.empty with frames := some o.frames }, o.frames, hn, rfl⟩
  | swapPages =>
    obtain ⟨text', hmem', hn⟩ := h.swapPages
    obtain rfl := text_unique h.once hmem' hmem
    exact ⟨{ Draft.empty with swapPages := some o.swapPages }, o.swapPages, hn, rfl⟩
  | seed =>
    rcases h.seed with ⟨text', hmem', hn⟩ | ⟨hnone, -⟩
    · obtain rfl := text_unique h.once hmem' hmem
      exact ⟨{ Draft.empty with seed := some (UInt64.ofNat o.seed.toNat) }, o.seed.toNat, hn, rfl⟩
    · exact absurd hmem (hnone text)

/-- A draft that holds what gives options asks for a run with them. -/
theorem Options.Given.request (hgiven : o.Given said) (h : d.Holds said) :
    d.request = .run o := by
  obtain ⟨-, hfile⟩ := h.values _ _ hgiven.traceFile
  obtain ⟨framesText, hframesSaid, hframes⟩ := hgiven.frames
  obtain ⟨n, hn, hframes'⟩ := h.values _ _ hframesSaid
  obtain rfl := hn.unique hframes
  obtain ⟨swapText, hswapSaid, hswap⟩ := hgiven.swapPages
  obtain ⟨k, hk, hswap'⟩ := h.values _ _ hswapSaid
  obtain rfl := hk.unique hswap
  have halgorithm := h.values _ _ hgiven.algorithm
  have hseed : d.seed.getD 369 = o.seed := by
    rcases hgiven.seed with ⟨text, hsaid, hnumber⟩ | ⟨hnone, hdefault⟩
    · obtain ⟨m, hm, hseed⟩ := h.values _ _ hsaid
      obtain rfl := hm.unique hnumber
      rw [hseed, Option.getD_some, UInt64.ofNat_toNat]
    · cases hseed? : d.seed with
      | none => exact hdefault.symm
      | some seed =>
        obtain ⟨text, hmem⟩ := h.said_of_has .seed (Option.isSome_of_eq_some hseed?)
        exact absurd hmem (hnone text)
  have hdebug : d.debug = o.debug := Bool.eq_iff_iff.mpr (h.debug.trans hgiven.debug.symm)
  have hverbosity : d.verbosity = o.verbosity := h.verbosity.trans hgiven.verbosity.symm
  exact Draft.request_eq_run_iff.mpr
    ⟨hfile, hframes', hswap', halgorithm, hseed, hdebug, hverbosity⟩

/-- What gives options can be taken, and asks for a run with them. -/
theorem takeAll?_iff_given :
    (∃ d, Draft.empty.takeAll? said = some d ∧ d.request = .run o) ↔ o.Given said := by
  refine ⟨fun ⟨d, htaken, hrun⟩ => ?_, fun hgiven => ?_⟩
  · have hholds := Draft.holds_empty.takeAll htaken
    exact hholds.given hrun
  · obtain ⟨d, htaken⟩ := Draft.holds_empty.exists_takeAll hgiven.once
      fun _ _ hmem => hgiven.exists_shows hmem
    have hholds := Draft.holds_empty.takeAll htaken
    exact ⟨d, htaken, hgiven.request hholds⟩

/-- Arguments are accepted exactly if they say what gives options, and then ask for a run with
these. -/
theorem parse_eq_run_iff {arguments : List String} :
    parse arguments = .run o ↔ ∃ said, Says arguments said ∧ o.Given said := by
  rw [run_iff_said]
  refine exists_congr fun said => ?_
  rw [← takeAll?_iff_given]
  exact exists_and_left

/-! ## Options without the switches -/

/-- The options as if no switch had been given. -/
def Options.quiet (o : Options) : Options := { o with debug := false, verbosity := 0 }

/-- One number is said for an option. -/
theorem number_unique (honce : said.Pairwise Said.Apart) {option : ValueOption} {n n' : Nat}
    (h : ∃ text, .value option text ∈ said ∧ Numeral 10 (2 ^ 64) text.toList n)
    (h' : ∃ text, .value option text ∈ said ∧ Numeral 10 (2 ^ 64) text.toList n') : n = n' := by
  obtain ⟨text, hmem, hn⟩ := h
  obtain ⟨text', hmem', hn'⟩ := h'
  obtain rfl := text_unique honce hmem hmem'
  exact hn.unique hn'

/-- The same values give the same options, switches aside. -/
theorem quiet_eq_of_given {o' : Options} {said' : List Said} (h : o.Given said)
    (h' : o'.Given said')
    (hsame : ∀ option text, .value option text ∈ said' ↔ .value option text ∈ said) :
    o'.quiet = o.quiet := by
  have hfile : o'.traceFile = o.traceFile :=
    text_unique h.once ((hsame _ _).mp h'.traceFile) h.traceFile
  have hframes := h'.frames
  have hswap := h'.swapPages
  have hseed := h'.seed
  simp only [hsame] at hframes hswap hseed
  have halgorithm : o'.algorithm = o.algorithm :=
    text_unique h.once ((hsame _ _).mp h'.algorithm) h.algorithm
  have hseeds : o'.seed = o.seed := by
    rcases hseed with hnumber | ⟨hnone, hdefault⟩
    · rcases h.seed with hnumber' | ⟨hnone, -⟩
      · exact UInt64.toNat_inj.mp (number_unique h.once hnumber hnumber')
      · obtain ⟨text, hmem, -⟩ := hnumber
        exact absurd hmem (hnone text)
    · rcases h.seed with ⟨text, hmem, -⟩ | ⟨-, hdefault'⟩
      · exact absurd hmem (hnone text)
      · exact hdefault.trans hdefault'.symm
  simp only [Options.quiet, hfile, number_unique h.once hframes h.frames,
    number_unique h.once hswap h.swapPages, halgorithm, hseeds]

end DemandPaging.CommandLine
