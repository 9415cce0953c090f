import DemandPaging.CommandLine.Options
import Mathlib.Data.List.Basic

/-!
# What arguments say and how they are spelled

Arguments say three kinds of things: that there is to be debugging, that more is to be logged, and
that an option has a value (`Said`). `Says` is the grammar of their spellings, with every letter and
every long name written out. A cluster of short options is read letter by letter (`Cluster`), one
argument by itself (`Word`), and an option that is left without a value there takes the argument
after it. Whoever says the same things in another spelling is understood alike, because taking the
arguments enters the things said one by one (`takeAll?`) and looks at nothing else.

An argument outside the grammar stops everything, as do a question for help or for the version and
whatever cannot be entered (`Stopped`): no argument behind it makes up for that.

> `argument_of_word`: an argument is taken as the things that it says, one after the other.
> `word_or_stopped`: every other argument stops.
> `run_iff_said`: arguments lead to a run exactly if they say things that do.
-/

namespace DemandPaging.CommandLine

/-- One thing that arguments say. -/
inductive Said where
  | debug
  | verbose
  | value (option : ValueOption) (text : String)
deriving DecidableEq

/-! ## The grammar -/

inductive SwitchLetter : Char → Said → Prop where
  | debug : SwitchLetter 'd' .debug
  | verbose : SwitchLetter 'v' .verbose

/-- Only the seed has no letter. -/
inductive OptionLetter : Char → ValueOption → Prop where
  | traceFile : OptionLetter 'f' .traceFile
  | frames : OptionLetter 'm' .frames
  | swapPages : OptionLetter 's' .swapPages
  | algorithm : OptionLetter 'a' .algorithm

inductive OptionName : String → ValueOption → Prop where
  | traceFile : OptionName "file" .traceFile
  | frames : OptionName "memsize" .frames
  | swapPages : OptionName "swapsize" .swapPages
  | algorithm : OptionName "algorithm" .algorithm
  | seed : OptionName "seed" .seed

/-- What letters in one cluster say, and the option that is left without a value. All that follows
the letter of an option is its value, and an equals sign between them does not belong to it. -/
inductive Cluster : List Char → List Said → Option ValueOption → Prop where
  | none : Cluster [] [] none
  | switch {c : Char} {s : Said} {cs : List Char} {said : List Said}
      {awaiting : Option ValueOption} (letter : SwitchLetter c s)
      (rest : Cluster cs said awaiting) : Cluster (c :: cs) (s :: said) awaiting
  | option {c : Char} {o : ValueOption} (letter : OptionLetter c o) : Cluster [c] [] (some o)
  | equals {c : Char} {o : ValueOption} {text : List Char} (letter : OptionLetter c o) :
      Cluster (c :: '=' :: text) [.value o (String.ofList text)] none
  | value {c d : Char} {o : ValueOption} {text : List Char} (letter : OptionLetter c o)
      (ne : d ≠ '=') : Cluster (c :: d :: text) [.value o (String.ofList (d :: text))] none

/-- What one argument says, and the option that is left without a value. -/
inductive Word : List Char → List Said → Option ValueOption → Prop where
  | debug : Word "--debug".toList [.debug] none
  | verbose : Word "--verbose".toList [.verbose] none
  | long {name : String} {o : ValueOption} (named : OptionName name o) :
      Word ('-' :: '-' :: name.toList) [] (some o)
  | equals {name : String} {text : List Char} {o : ValueOption} (named : OptionName name o) :
      Word ('-' :: '-' :: (name.toList ++ '=' :: text)) [.value o (String.ofList text)] none
  | short {cs : List Char} {said : List Said} {awaiting : Option ValueOption} (ne : cs ≠ [])
      (cluster : Cluster cs said awaiting) : Word ('-' :: cs) said awaiting

/-- An argument that can be a value by itself: a hyphen in front would make it an option. -/
def StandsAlone (text : String) : Prop := text = "-" ∨ text.toList.head? ≠ some '-'

/-- What arguments say. Two hyphens may end them. -/
inductive Says : List String → List Said → Prop where
  | nothing : Says [] []
  | ended : Says ["--"] []
  | whole {argument : String} {arguments : List String} {said more : List Said}
      (word : Word argument.toList said none) (rest : Says arguments more) :
      Says (argument :: arguments) (said ++ more)
  | apart {argument text : String} {arguments : List String} {said more : List Said}
      {o : ValueOption} (word : Word argument.toList said (some o)) (alone : StandsAlone text)
      (rest : Says arguments more) :
      Says (argument :: text :: arguments) (said ++ .value o text :: more)

/-! ## Entering what is said -/

namespace Draft

/-- Enters one thing. Only verbosity may be asked for twice. -/
def take? (d : Draft) : Said → Option Draft
  | .debug => if d.debug then none else some { d with debug := true }
  | .verbose => some { d with verbosity := d.verbosity + 1 }
  | .value o text => if d.has o then none else d.enter? o text

/-- Enters things, one after the other. -/
def takeAll? (d : Draft) (said : List Said) : Option Draft := said.foldlM take? d

/-- What is said in two parts is entered in two parts. -/
theorem takeAll?_append_eq_some {d d' : Draft} {said more : List Said} :
    d.takeAll? (said ++ more) = some d' ↔
      ∃ between, d.takeAll? said = some between ∧ between.takeAll? more = some d' := by
  simp only [takeAll?, List.foldlM_append]
  exact Option.bind_eq_some_iff

theorem takeAll?_cons_eq_some {d d' : Draft} {s : Said} {more : List Said} :
    d.takeAll? (s :: more) = some d' ↔
      ∃ between, d.take? s = some between ∧ between.takeAll? more = some d' := by
  simp only [takeAll?, List.foldlM_cons]
  exact Option.bind_eq_some_iff

end Draft

/-! ## Stopping -/

/-- It is settled, and not to a run. -/
def Progress.Stopped (p : Progress) : Prop :=
  ∃ request, p = .settled request ∧ ∀ o, request ≠ .run o

/-- A piece that stops wherever it stands. -/
def Piece.Stops (piece : Piece) : Prop :=
  piece = .switch .help ∨ piece = .switch .version ∨ ∃ e, piece = .bad e

theorem stopped_refused (e : UsageError) : (Progress.settled (.refused e)).Stopped :=
  ⟨_, rfl, fun _ => Request.noConfusion⟩

/-- The rest of an argument is not looked at. -/
theorem Progress.Stopped.foldl_piece {p : Progress} (h : p.Stopped) (pieces : List Piece) :
    (pieces.foldl Progress.piece p).Stopped := by
  obtain ⟨request, rfl, hrun⟩ := h
  exact ⟨request, List.foldl_fixed' (fun _ => rfl) pieces, hrun⟩

/-- There is no way back to a run. -/
theorem Progress.Stopped.request_ne {p : Progress} (h : p.Stopped) (arguments : List String)
    (o : Options) : (arguments.foldl Progress.argument p).request ≠ .run o := by
  obtain ⟨request, rfl, hrun⟩ := h
  rw [List.foldl_fixed' (fun _ => rfl) arguments]
  exact hrun o

/-- Wherever a question or a bad piece stands, it is the last thing that is looked at. -/
theorem Piece.Stops.stopped {piece : Piece} (h : piece.Stops) (d : Draft)
    (awaiting : Option ValueOption) :
    (Progress.piece (.reading d awaiting) piece).Stopped := by
  rcases h with rfl | rfl | ⟨e, rfl⟩
  · exact ⟨.help, rfl, fun _ => Request.noConfusion⟩
  · exact ⟨.version, rfl, fun _ => Request.noConfusion⟩
  · exact stopped_refused e

/-- A value is entered, or the run is off. -/
theorem value_reading_or_stopped (d : Draft) (o : ValueOption) (text : String) :
    (∃ d', Progress.value d o text = .reading d' none) ∨ (Progress.value d o text).Stopped := by
  unfold Progress.value
  split
  next => exact .inr (stopped_refused _)
  next =>
    split
    next => exact .inr (stopped_refused _)
    next d' _ => exact .inl ⟨d', rfl⟩

/-- Any piece is taken, or the run is off. -/
theorem piece_reading_or_stopped (d : Draft) (awaiting : Option ValueOption) (piece : Piece) :
    (∃ d' awaiting', Progress.piece (.reading d awaiting) piece = .reading d' awaiting') ∨
      (Progress.piece (.reading d awaiting) piece).Stopped := by
  cases piece with
  | bad e => exact .inr (stopped_refused e)
  | option o value? =>
    cases value? with
    | none => exact .inl ⟨d, some o, rfl⟩
    | some text => exact (value_reading_or_stopped d o text).imp_left fun ⟨d', h⟩ => ⟨d', none, h⟩
  | switch s =>
    cases s with
    | help => exact .inr (Piece.Stops.stopped (.inl rfl) d awaiting)
    | version => exact .inr (Piece.Stops.stopped (.inr (.inl rfl)) d awaiting)
    | verbose => exact .inl ⟨_, none, rfl⟩
    | debug =>
      simp only [Progress.piece]
      split
      next => exact .inr (stopped_refused _)
      next => exact .inl ⟨_, none, rfl⟩

/-- Wherever it stands among others, a piece that stops is reached or something stops before it. -/
theorem foldl_piece_of_stops {pieces : List Piece} (h : ∃ piece ∈ pieces, piece.Stops) (d : Draft)
    (awaiting : Option ValueOption) :
    (pieces.foldl Progress.piece (.reading d awaiting)).Stopped := by
  induction pieces generalizing d awaiting with
  | nil =>
    obtain ⟨piece, hmem, -⟩ := h
    exact absurd hmem List.not_mem_nil
  | cons first pieces ih =>
    rw [List.foldl_cons]
    obtain ⟨piece, hmem, hstops⟩ := h
    rcases List.mem_cons.mp hmem with rfl | hmem
    · exact (hstops.stopped d awaiting).foldl_piece pieces
    · rcases piece_reading_or_stopped d awaiting first with ⟨d', awaiting', heq⟩ | hstopped
      · rw [heq]
        exact ih ⟨piece, hmem, hstops⟩ d' awaiting'
      · exact hstopped.foldl_piece pieces

/-! ## Things said, as pieces -/

/-- The piece that says a thing. -/
def Said.piece : Said → Piece
  | debug => .switch .debug
  | verbose => .switch .verbose
  | value o text => .option o (some text)

/-- The pieces of an argument that says these things and leaves an option without its value. -/
def piecesSaying (said : List Said) (awaiting : Option ValueOption) : List Piece :=
  said.map Said.piece ++ (awaiting.map (Piece.option · none)).toList

/-- The piece that spells a thing enters it. -/
theorem piece_of_take? {d d' : Draft} {s : Said} (h : d.take? s = some d')
    (awaiting : Option ValueOption) :
    Progress.piece (.reading d awaiting) s.piece = .reading d' none := by
  cases s with
  | verbose =>
    obtain rfl := Option.some.inj h
    rfl
  | debug =>
    simp only [Draft.take?, Option.ite_none_left_eq_some] at h
    obtain ⟨hdebug, h⟩ := h
    obtain rfl := Option.some.inj h
    exact if_neg hdebug
  | value o text =>
    simp only [Draft.take?, Option.ite_none_left_eq_some] at h
    obtain ⟨hhas, hentered⟩ := h
    simp only [Said.piece, Progress.piece, Progress.value, if_neg hhas, hentered]

/-- A thing that cannot be entered stops where it is spelled. -/
theorem piece_of_take?_none {d : Draft} {s : Said} (h : d.take? s = none)
    (awaiting : Option ValueOption) :
    (Progress.piece (.reading d awaiting) s.piece).Stopped := by
  cases s with
  | verbose => cases h
  | debug =>
    simp only [Draft.take?, ite_eq_left_iff, reduceCtorEq, imp_false, not_not] at h
    simp only [Said.piece, Progress.piece, if_pos h]
    exact stopped_refused _
  | value o text =>
    simp only [Said.piece, Progress.piece, Progress.value]
    split
    next => exact stopped_refused _
    next hhas =>
      rw [Draft.take?, if_neg hhas] at h
      rw [h]
      exact stopped_refused _

/-- The pieces that spell things enter them in turn. -/
theorem foldl_piecesSaying {d d' : Draft} {said : List Said} (h : d.takeAll? said = some d')
    (awaiting : Option ValueOption) :
    (piecesSaying said awaiting).foldl Progress.piece (.reading d none) = .reading d' awaiting := by
  induction said generalizing d with
  | nil =>
    obtain rfl := Option.some.inj h
    cases awaiting with
    | none => rfl
    | some o => rfl
  | cons s said ih =>
    obtain ⟨between, hfirst, hrest⟩ := Draft.takeAll?_cons_eq_some.mp h
    rw [piecesSaying, List.map_cons, List.cons_append, List.foldl_cons, piece_of_take? hfirst]
    exact ih hrest

/-- The pieces that spell things stop at the first thing that cannot be entered. -/
theorem foldl_piecesSaying_none {d : Draft} {said : List Said} (h : d.takeAll? said = none)
    (awaiting : Option ValueOption) :
    ((piecesSaying said awaiting).foldl Progress.piece (.reading d none)).Stopped := by
  induction said generalizing d with
  | nil => cases h
  | cons s said ih =>
    rw [piecesSaying, List.map_cons, List.cons_append, List.foldl_cons]
    cases hfirst : d.take? s with
    | none => exact (piece_of_take?_none hfirst none).foldl_piece _
    | some between =>
      rw [piece_of_take? hfirst]
      refine ih (Option.eq_none_iff_forall_ne_some.mpr fun d' hrest => ?_)
      have hall := Draft.takeAll?_cons_eq_some.mpr ⟨between, hfirst, hrest⟩
      exact Option.some_ne_none d' (hall.symm.trans h)

/-! ## Clusters -/

/-- The letter of a switch is one piece, and the cluster goes on behind it. -/
theorem SwitchLetter.shortPieces_cons {c : Char} {s : Said} (h : SwitchLetter c s)
    (argument : String) (cs : List Char) :
    shortPieces argument (c :: cs) = s.piece :: shortPieces argument cs := by
  cases h with
  | debug => rfl
  | verbose => rfl

/-- The letter of an option takes all that is left of the cluster. -/
theorem OptionLetter.shortPieces_cons {c : Char} {o : ValueOption} (h : OptionLetter c o)
    (argument : String) (cs : List Char) :
    shortPieces argument (c :: cs) = [.option o (attached cs)] := by
  cases h with
  | traceFile => rfl
  | frames => rfl
  | swapPages => rfl
  | algorithm => rfl

/-- Only an equals sign is left out of a value. -/
theorem attached_of_ne {d : Char} (h : d ≠ '=') (text : List Char) :
    attached (d :: text) = some (String.ofList (d :: text)) := by
  unfold attached
  split
  next heq => cases heq
  next heq => exact absurd (List.cons.inj heq).1 h
  next => rfl

/-- A cluster is taken as what it says. -/
theorem shortPieces_of_cluster {cs : List Char} {said : List Said} {awaiting : Option ValueOption}
    (h : Cluster cs said awaiting) (argument : String) :
    shortPieces argument cs = piecesSaying said awaiting := by
  induction h with
  | none => rfl
  | switch letter _ ih =>
    rw [letter.shortPieces_cons, ih]
    rfl
  | option letter => exact letter.shortPieces_cons argument []
  | equals letter => exact letter.shortPieces_cons argument _
  | value letter ne =>
    rw [letter.shortPieces_cons, attached_of_ne ne]
    rfl

/-- The letters of the grammar are all there are. -/
theorem optionLetter_of_letter? {c : Char} {o : ValueOption} (h : o.letter? = some c) :
    OptionLetter c o := by
  cases o with
  | seed => cases h
  | _ =>
    obtain rfl := Option.some.inj h
    constructor

/-- What follows the letter of an option is its value, if there is anything. -/
theorem OptionLetter.cluster {c : Char} {o : ValueOption} (h : OptionLetter c o)
    (cs : List Char) : ∃ said awaiting, Cluster (c :: cs) said awaiting := by
  cases cs with
  | nil => exact ⟨_, _, .option h⟩
  | cons d text =>
    by_cases hd : d = '='
    · rw [hd]
      exact ⟨_, _, .equals h⟩
    · exact ⟨_, _, .value h hd⟩

/-- A cluster is in the grammar, or has a piece that stops. -/
theorem cluster_or_stops (argument : String) (cs : List Char) :
    (∃ said awaiting, Cluster cs said awaiting) ∨
      ∃ piece ∈ shortPieces argument cs, piece.Stops := by
  induction cs with
  | nil => exact .inl ⟨_, _, .none⟩
  | cons c cs ih =>
    rw [shortPieces]
    cases hswitch : Switch.all.find? (·.letter == c) with
    | some s =>
      have hletter := List.find?_some hswitch
      obtain rfl : s.letter = c := eq_of_beq hletter
      have hmore : ∀ {said : Said}, SwitchLetter s.letter said →
          (∃ said awaiting, Cluster (s.letter :: cs) said awaiting) ∨
            ∃ piece ∈ Piece.switch s :: shortPieces argument cs, piece.Stops := by
        intro said hletter
        rcases ih with ⟨more, awaiting, hcluster⟩ | ⟨piece, hmem, hstops⟩
        · exact .inl ⟨_, _, .switch hletter hcluster⟩
        · exact .inr ⟨piece, List.mem_cons_of_mem _ hmem, hstops⟩
      cases s with
      | debug => exact hmore .debug
      | verbose => exact hmore .verbose
      | help => exact .inr ⟨_, List.mem_cons_self, .inl rfl⟩
      | version => exact .inr ⟨_, List.mem_cons_self, .inr (.inl rfl)⟩
    | none =>
      cases hoption : ValueOption.all.find? (·.letter? == some c) with
      | some o =>
        have hletter := List.find?_some hoption
        exact .inl ((optionLetter_of_letter? (eq_of_beq hletter)).cluster cs)
      | none => exact .inr ⟨_, List.mem_cons_self, .inr (.inr ⟨_, rfl⟩)⟩

/-! ## Arguments -/

/-- The long name of an option is no switch, and it names that option alone. -/
theorem OptionName.find? {name : String} {o : ValueOption} (h : OptionName name o) :
    Switch.all.find? (·.longName == name) = none ∧
      ValueOption.all.find? (·.longName == name) = some o ∧ '=' ∉ name.toList := by
  cases h with
  | _ => decide

theorem OptionName.ne_nil {name : String} {o : ValueOption} (h : OptionName name o) :
    name.toList ≠ [] := by
  cases h with
  | _ => decide

/-- A long name is one piece, with the value behind the equals sign if there is one. -/
theorem OptionName.longPiece {name : String} {o : ValueOption} (h : OptionName name o)
    (argument : String) {cs : List Char} (hcs : cs = [] ∨ ∃ text, cs = '=' :: text) :
    longPiece argument (name.toList ++ cs) = .option o (attached cs) := by
  obtain ⟨hswitch, hoption, hequals⟩ := h.find?
  have hname : ∀ c ∈ name.toList, (c != '=') = true := fun c hc =>
    bne_iff_ne.mpr fun heq => hequals (heq ▸ hc)
  have htake : (name.toList ++ cs).takeWhile (· != '=') = name.toList := by
    rw [List.takeWhile_append_of_pos hname]
    rcases hcs with rfl | ⟨text, rfl⟩ <;> simp
  have hdrop : (name.toList ++ cs).dropWhile (· != '=') = cs := by
    rw [List.dropWhile_append_of_pos hname]
    rcases hcs with rfl | ⟨text, rfl⟩ <;> simp
  simp only [CommandLine.longPiece, htake, hdrop, String.ofList_toList, hswitch, hoption]

/-- No letter is a hyphen. -/
theorem Cluster.head_ne {cs : List Char} {said : List Said} {awaiting : Option ValueOption}
    (h : Cluster ('-' :: cs) said awaiting) : False := by
  cases h with
  | switch letter => cases letter
  | option letter => cases letter
  | equals letter => cases letter
  | value letter => cases letter

/-- Behind two hyphens there is one long name. -/
theorem argument_long {argument : String} {cs : List Char}
    (h : argument.toList = '-' :: '-' :: cs) (hne : cs ≠ []) (d : Draft) :
    Progress.argument (.reading d none) argument
      = Progress.piece (.reading d none) (longPiece argument cs) := by
  obtain ⟨c, cs, rfl⟩ := List.exists_cons_of_ne_nil hne
  simp only [Progress.argument, h]

/-- Behind one hyphen there are letters. -/
theorem argument_short {argument : String} {c : Char} {cs : List Char}
    (h : argument.toList = '-' :: c :: cs) (hc : c ≠ '-') (d : Draft) :
    Progress.argument (.reading d none) argument
      = (shortPieces argument (c :: cs)).foldl Progress.piece (.reading d none) := by
  simp only [Progress.argument, h]
  split
  next heq => exact absurd (List.cons.inj (List.cons.inj heq).2).1 hc
  next heq => exact absurd (List.cons.inj (List.cons.inj heq).2).1 hc
  next heq =>
    cases heq
    rfl
  next hnot => exact absurd rfl (hnot c cs)

/-- An argument is taken as the things that it says, one after the other. -/
theorem argument_of_word {argument : String} {said : List Said} {awaiting : Option ValueOption}
    (h : Word argument.toList said awaiting) (d : Draft) :
    Progress.argument (.reading d none) argument
      = (piecesSaying said awaiting).foldl Progress.piece (.reading d none) := by
  generalize htext : argument.toList = text at h
  cases h with
  | debug => exact argument_long htext (by decide) d
  | verbose => exact argument_long htext (by decide) d
  | @long name o named =>
    have hpiece := named.longPiece argument (.inl rfl)
    rw [List.append_nil] at hpiece
    rw [argument_long htext named.ne_nil, hpiece]
    rfl
  | @equals name _ o named =>
    rw [argument_long htext (by simp), named.longPiece argument (.inr ⟨_, rfl⟩)]
    rfl
  | @short cs _ _ ne cluster =>
    obtain ⟨c, cs, rfl⟩ := List.exists_cons_of_ne_nil ne
    have hc : c ≠ '-' := by
      rintro rfl
      exact cluster.head_ne
    rw [argument_short htext hc, shortPieces_of_cluster cluster]

/-- The names of the grammar are all there are. -/
theorem optionName_longName (o : ValueOption) : OptionName o.longName o := by
  cases o with
  | _ => constructor

theorem attached_eq_none {cs : List Char} (h : attached cs = none) : cs = [] := by
  unfold attached at h
  split at h
  next => rfl
  next => cases h
  next => cases h

/-- The long name of a switch is in the grammar, or asks a question. -/
theorem switch_word_or_stops (s : Switch) :
    (∃ said awaiting, Word ('-' :: '-' :: s.longName.toList) said awaiting) ∨
      (Piece.switch s).Stops := by
  cases s with
  | debug => exact .inl ⟨_, _, .debug⟩
  | verbose => exact .inl ⟨_, _, .verbose⟩
  | help => exact .inr (.inl rfl)
  | version => exact .inr (.inr (.inl rfl))

/-- What follows the long name of an option is its value, behind an equals sign. -/
theorem OptionName.word {name : String} {o : ValueOption} (h : OptionName name o)
    {rest : List Char} (hrest : rest = [] ∨ ∃ text, rest = '=' :: text) :
    ∃ said awaiting, Word ('-' :: '-' :: (name.toList ++ rest)) said awaiting := by
  rcases hrest with rfl | ⟨text, rfl⟩
  · rw [List.append_nil]
    exact ⟨_, _, .long h⟩
  · exact ⟨_, _, .equals h⟩

/-- What is not taken of a long name begins with an equals sign, if there is anything. -/
theorem dropWhile_ne_equals (cs : List Char) :
    cs.dropWhile (· != '=') = [] ∨ ∃ text, cs.dropWhile (· != '=') = '=' :: text := by
  cases hrest : cs.dropWhile (· != '=') with
  | nil => exact .inl rfl
  | cons c text =>
    have hnot := List.head?_dropWhile_not (· != '=') cs
    rw [hrest] at hnot
    have hc : c = '=' := by simpa using hnot
    exact .inr ⟨text, by rw [hc]⟩

/-- A long name is in the grammar, or its piece stops. -/
theorem longPiece_word_or_stops (argument : String) (cs : List Char) :
    (∃ said awaiting, Word ('-' :: '-' :: cs) said awaiting) ∨ (longPiece argument cs).Stops := by
  have hsplit : cs.takeWhile (· != '=') ++ cs.dropWhile (· != '=') = cs :=
    List.takeWhile_append_dropWhile
  have hrest := dropWhile_ne_equals cs
  unfold longPiece
  generalize cs.takeWhile (· != '=') = name at hsplit ⊢
  generalize cs.dropWhile (· != '=') = rest at hsplit hrest ⊢
  subst hsplit
  dsimp only
  cases hswitch : Switch.all.find? (·.longName == String.ofList name) with
  | some s =>
    have hlong := List.find?_some hswitch
    have hs : s.longName.toList = name := by
      rw [eq_of_beq hlong, String.toList_ofList]
    dsimp only
    split
    next hvalue =>
      obtain rfl := attached_eq_none (Option.isNone_iff_eq_none.mp hvalue)
      rw [List.append_nil, ← hs]
      exact switch_word_or_stops s
    next => exact .inr (.inr (.inr ⟨_, rfl⟩))
  | none =>
    cases hoption : ValueOption.all.find? (·.longName == String.ofList name) with
    | some o =>
      have hlong := List.find?_some hoption
      have ho : o.longName.toList = name := by
        rw [eq_of_beq hlong, String.toList_ofList]
      rw [← ho]
      exact .inl ((optionName_longName o).word hrest)
    | none => exact .inr (.inr (.inr ⟨_, rfl⟩))

/-- Every other argument stops. -/
theorem word_or_stopped {argument : String} (h : argument.toList ≠ ['-', '-']) (d : Draft) :
    (∃ said awaiting, Word argument.toList said awaiting) ∨
      (Progress.argument (.reading d none) argument).Stopped := by
  simp only [Progress.argument]
  generalize argument.toList = text at h ⊢
  split
  next => exact absurd rfl h
  next cs _ =>
    exact (longPiece_word_or_stops argument cs).imp_right fun hstops => hstops.stopped d none
  next c cs _ _ =>
    rcases cluster_or_stops argument (c :: cs) with ⟨said, awaiting, hcluster⟩ | hstops
    · exact .inl ⟨said, awaiting, .short (List.cons_ne_nil c cs) hcluster⟩
    · exact .inr (foldl_piece_of_stops hstops d none)
  next => exact .inr (stopped_refused _)

/-! ## Whole argument lists -/

/-- An argument in the grammar enters the things that it says. -/
theorem argument_taken {argument : String} {said : List Said} {awaiting : Option ValueOption}
    (h : Word argument.toList said awaiting) {d d' : Draft} (htaken : d.takeAll? said = some d') :
    Progress.argument (.reading d none) argument = .reading d' awaiting := by
  rw [argument_of_word h, foldl_piecesSaying htaken]

/-- An argument that stands alone is the value that is waited for. -/
theorem argument_awaited {text : String} (h : StandsAlone text) (d : Draft) (o : ValueOption) :
    Progress.argument (.reading d (some o)) text
      = Progress.piece (.reading d none) (Said.piece (.value o text)) := by
  simp only [Progress.argument]
  split
  next heq =>
    rcases h with rfl | hhead
    · cases heq
    · rw [heq] at hhead
      exact absurd rfl hhead
  next => rfl

theorem exists_of_not_standsAlone {text : String} (h : ¬ StandsAlone text) :
    ∃ c cs, text.toList = '-' :: c :: cs := by
  obtain ⟨hne, hhead⟩ := not_or.mp h
  obtain ⟨cs, hcs⟩ := List.head?_eq_some_iff.mp (not_not.mp hhead)
  cases cs with
  | nil => exact absurd (String.toList_inj.mp hcs) hne
  | cons c cs => exact ⟨c, cs, hcs⟩

/-- An option that is left without a value stops at what looks like an option. -/
theorem argument_awaited_stopped {text : String} (h : ¬ StandsAlone text) (d : Draft)
    (o : ValueOption) : (Progress.argument (.reading d (some o)) text).Stopped := by
  obtain ⟨c, cs, htext⟩ := exists_of_not_standsAlone h
  simp only [Progress.argument, htext]
  exact stopped_refused _

/-- After the two hyphens nothing may come. -/
theorem foldl_ended {d : Draft} {arguments : List String} {o : Options}
    (h : (arguments.foldl Progress.argument (.ended d)).request = .run o) :
    arguments = [] ∧ d.request = .run o := by
  cases arguments with
  | nil => exact ⟨rfl, h⟩
  | cons argument rest =>
    have hstopped : (Progress.argument (.ended d) argument).Stopped := stopped_refused _
    exact absurd h (hstopped.request_ne rest o)

/-- Arguments that say things which can be entered lead to the run of what was entered. -/
theorem run_of_says {arguments : List String} {said : List Said} (h : Says arguments said)
    {d d' : Draft} {o : Options} (htaken : d.takeAll? said = some d')
    (hrun : d'.request = .run o) :
    (arguments.foldl Progress.argument (.reading d none)).request = .run o := by
  induction h generalizing d with
  | nothing =>
    obtain rfl := Option.some.inj htaken
    exact hrun
  | ended =>
    obtain rfl := Option.some.inj htaken
    exact hrun
  | whole word _ ih =>
    obtain ⟨between, hword, hmore⟩ := Draft.takeAll?_append_eq_some.mp htaken
    rw [List.foldl_cons, argument_taken word hword]
    exact ih hmore
  | apart word alone _ ih =>
    obtain ⟨between, hword, hrest⟩ := Draft.takeAll?_append_eq_some.mp htaken
    obtain ⟨entered, hvalue, hmore⟩ := Draft.takeAll?_cons_eq_some.mp hrest
    rw [List.foldl_cons, List.foldl_cons, argument_taken word hword, argument_awaited alone,
      piece_of_take? hvalue]
    exact ih hmore

/-- An argument on the way to a run is in the grammar, and what it says was entered. -/
theorem taken_of_run {argument : String} {arguments : List String} {d : Draft} {o : Options}
    (hend : argument.toList ≠ ['-', '-'])
    (h : ((argument :: arguments).foldl Progress.argument (.reading d none)).request = .run o) :
    ∃ said awaiting between, Word argument.toList said awaiting ∧
      d.takeAll? said = some between ∧
      (arguments.foldl Progress.argument (.reading between awaiting)).request = .run o := by
  rw [List.foldl_cons] at h
  rcases word_or_stopped hend d with ⟨said, awaiting, hword⟩ | hstopped
  · cases htaken : d.takeAll? said with
    | none =>
      have hstopped := foldl_piecesSaying_none htaken awaiting
      rw [← argument_of_word hword] at hstopped
      exact absurd h (hstopped.request_ne arguments o)
    | some between =>
      rw [argument_taken hword htaken] at h
      exact ⟨said, awaiting, between, hword, htaken, h⟩
  · exact absurd h (hstopped.request_ne arguments o)

/-- An option without a value on the way to a run is followed by its value, which was entered. -/
theorem value_of_run {arguments : List String} {d : Draft} {option : ValueOption} {o : Options}
    (h : (arguments.foldl Progress.argument (.reading d (some option))).request = .run o) :
    ∃ text rest entered, arguments = text :: rest ∧ StandsAlone text ∧
      d.take? (.value option text) = some entered ∧
      (rest.foldl Progress.argument (.reading entered none)).request = .run o := by
  cases arguments with
  | nil => cases h
  | cons text rest =>
    rw [List.foldl_cons] at h
    by_cases halone : StandsAlone text
    · rw [argument_awaited halone] at h
      cases hvalue : d.take? (.value option text) with
      | none =>
        have hstopped := piece_of_take?_none hvalue none
        exact absurd h (hstopped.request_ne rest o)
      | some entered =>
        rw [piece_of_take? hvalue] at h
        exact ⟨text, rest, entered, rfl, halone, hvalue, h⟩
    · have hstopped := argument_awaited_stopped halone d option
      exact absurd h (hstopped.request_ne rest o)

/-- Arguments that lead to a run say something, and the run is of what they say. -/
theorem says_of_run : ∀ (arguments : List String) (d : Draft) {o : Options},
    (arguments.foldl Progress.argument (.reading d none)).request = .run o →
    ∃ said d', Says arguments said ∧ d.takeAll? said = some d' ∧ d'.request = .run o
  | [], d, _, h => ⟨[], d, .nothing, rfl, h⟩
  | argument :: arguments, d, o, h => by
    by_cases hend : argument.toList = ['-', '-']
    · obtain rfl : argument = "--" := String.toList_inj.mp hend
      obtain ⟨rfl, hrun⟩ := foldl_ended h
      exact ⟨[], d, .ended, rfl, hrun⟩
    obtain ⟨said, awaiting, between, hword, htaken, hrest⟩ := taken_of_run hend h
    cases awaiting with
    | none =>
      obtain ⟨more, d', hsays, hmore, hrun⟩ := says_of_run arguments between hrest
      exact ⟨said ++ more, d', .whole hword hsays,
        Draft.takeAll?_append_eq_some.mpr ⟨between, htaken, hmore⟩, hrun⟩
    | some option =>
      obtain ⟨text, rest, entered, harguments, halone, hvalue, hrest⟩ := value_of_run hrest
      have hshorter : rest.length < (argument :: arguments).length := by
        rw [harguments, List.length_cons, List.length_cons]
        omega
      obtain ⟨more, d', hsays, hmore, hrun⟩ := says_of_run rest entered hrest
      subst harguments
      refine ⟨_, d', .apart hword halone hsays, ?_, hrun⟩
      exact Draft.takeAll?_append_eq_some.mpr ⟨between, htaken,
        Draft.takeAll?_cons_eq_some.mpr ⟨entered, hvalue, hmore⟩⟩
termination_by arguments => arguments.length

/-- Arguments lead to a run exactly if they say things that do. -/
theorem run_iff_said {arguments : List String} {o : Options} :
    parse arguments = .run o ↔
      ∃ said d, Says arguments said ∧ Draft.empty.takeAll? said = some d ∧ d.request = .run o := by
  refine ⟨says_of_run arguments .empty, ?_⟩
  rintro ⟨said, d, hsays, htaken, hrun⟩
  exact run_of_says hsays htaken hrun

end DemandPaging.CommandLine
