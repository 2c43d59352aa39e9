import Reckon.Proofs.Path
import Reckon.Proofs.Pulls

/-! The full journal of a calculation: every scope is left in its turn, every record stands in the
scope that it belongs to, and what the records tell is what happened, in the order it happened. -/

namespace Reckon

open TokenStream Scanner

namespace Record

def entered? : Record → Option Scope
  | entered s => some s
  | _ => none

def event? : Record → Option Event
  | event e => some e
  | _ => none

def move? : Record → Option Move
  | event (.transition m) => some m
  | _ => none

def emitted? : Record → Option String
  | event (.emitting token) => some token
  | _ => none

def result? : Record → Option (Except Failure Int32)
  | event (.finished result) => some result
  | _ => none

end Record

/-- A journal that begins in the scopes `inside`, the innermost first, and ends in others. A scope
is entered as soon as it is opened, and the innermost is the one that is left. Each event and each
opening satisfies `P` in the scopes around it. -/
inductive Nests (P : List Scope → Record → Prop) : List Scope → Journal → List Scope → Prop where
  | nil {inside : List Scope} : Nests P inside [] inside
  | event {inside last : List Scope} {e : Event} {j : Journal} (h : P inside (.event e)) :
    Nests P inside j last → Nests P inside (.event e :: j) last
  | enter {inside last : List Scope} {s : Scope} {j : Journal} (h : P inside (.opened s)) :
    Nests P (s :: inside) j last → Nests P inside (.opened s :: .entered s :: j) last
  | leave {inside last : List Scope} {s : Scope} {j : Journal} :
    Nests P inside j last → Nests P (s :: inside) (.left s :: j) last

/-- Where a record of the calculation of `text` belongs. Tokens are accepted one after the other,
directly in the evaluation, and all that the yard has to say it says while it accepts one. -/
inductive Belongs (text : String) : List Scope → Record → Prop where
  | calculate : Belongs text [] (.opened (.calculate text))
  | evaluate : Belongs text [.calculate text] (.opened .evaluate)
  | accept (t : String) : Belongs text [.evaluate, .calculate text] (.opened (.accept t))
  | transition (m : Move) : Belongs text [.evaluate, .calculate text] (.event (.transition m))
  | emitting (t u : String) :
    Belongs text [.accept t, .evaluate, .calculate text] (.event (.emitting u))
  | passingOn (t : String) :
    Belongs text [.accept t, .evaluate, .calculate text] (.event .passingOn)
  | unbalanced (t place complaint : String) :
    Belongs text [.accept t, .evaluate, .calculate text] (.event (.unbalanced place complaint))
  | finished (r : Except Failure Int32) :
    Belongs text [.evaluate, .calculate text] (.event (.finished r))

variable {text : String} {P : List Scope → Record → Prop} {a b c : List Scope} {j k : Journal}

theorem Nests.append (h : Nests P a j b) (h' : Nests P b k c) : Nests P a (j ++ k) c := by
  induction h with
  | nil => exact h'
  | event he _ ih => exact .event he (ih h')
  | enter hs _ ih => exact .enter hs (ih h')
  | leave _ ih => exact .leave (ih h')

/-- At the level of most detail nothing is left out. -/
theorem Journal.upTo_trace (j : Journal) : j.upTo .trace = j := by
  refine List.filter_eq_self.2 fun r _ => ?_
  have hrank : ∀ l : Level, Level.Admits .trace l := by
    intro l
    cases l <;> decide
  exact decide_eq_true (hrank r.level)

/-- A scanner gives the same tokens whether or not it is logged. What it does is added to the
journal. -/
theorem next_logged {s s' : Logged} {o : Option Token} (h : TokenStream.next s = (o, s')) :
    TokenStream.next s.scanner = (o, s'.scanner) ∧ Leads s.scanner s.scanner.next.moves s'.scanner ∧
      s'.journal = s.journal ++ s.scanner.next.moves.map fun m => .event (.transition m) := by
  cases h
  exact ⟨rfl, leads_next _, rfl⟩

theorem next_logged_none {s s' : Logged} (h : TokenStream.next s = (none, s')) : s' = s := by
  obtain ⟨hs, _, hj⟩ := next_logged h
  obtain ⟨hscanner, hended⟩ := ended_of_next hs
  have hmoves : s.scanner.next.moves = [] := by simp [Scanner.next, hended]
  rw [hmoves, List.map_nil, List.append_nil] at hj
  cases s
  cases s'
  cases hj
  cases hscanner
  rfl

theorem toList_logged (s : Logged) : toList s = toList s.scanner := by
  unfold toList
  fun_induction drain s with
  | case1 s s' h => rw [drain_of_none (next_logged h).1]
  | case2 s t s' h _ _ ih => rw [drain_of_some (next_logged h).1, ← ih]

instance : LawfulTokenStream Logged where
  toList_note j s := by
    rw [toList_logged, toList_logged]
    rfl

instance : FusedTokenStream Logged where
  next_of_none {s s'} h := by
    have := next_logged_none h
    rwa [this] at h ⊢

/-- A stretch that begins and ends in the scopes `inside`: the transitions `ms` were taken, the
scopes `ss` were entered, tokens with the texts `us` were released, and `rs` is what came out. -/
structure Tells (text : String) (inside : List Scope) (j : Journal) (ms : List Move)
    (ss : List Scope) (us : List String) (rs : List (Except Failure Int32)) : Prop where
  nests : Nests (Belongs text) inside j inside
  moves : j.filterMap Record.move? = ms
  entered : j.filterMap Record.entered? = ss
  emitted : j.filterMap Record.emitted? = us
  results : j.filterMap Record.result? = rs

variable {inside : List Scope} {ms ms' : List Move} {ss ss' : List Scope} {us us' : List String}
  {rs rs' : List (Except Failure Int32)} {ts : List Token} {t : Token} {p : Rpn Logged}

theorem tells_nil : Tells text inside [] [] [] [] [] := ⟨.nil, rfl, rfl, rfl, rfl⟩

theorem Tells.append (h : Tells text inside j ms ss us rs)
    (h' : Tells text inside k ms' ss' us' rs') :
    Tells text inside (j ++ k) (ms ++ ms') (ss ++ ss') (us ++ us') (rs ++ rs') where
  nests := h.nests.append h'.nests
  moves := by rw [List.filterMap_append, h.moves, h'.moves]
  entered := by rw [List.filterMap_append, h.entered, h'.entered]
  emitted := by rw [List.filterMap_append, h.emitted, h'.emitted]
  results := by rw [List.filterMap_append, h.results, h'.results]

theorem tells_event {e : Event} (h : Belongs text inside (.event e)) :
    Tells text inside [.event e] (Record.move? (.event e)).toList []
      (Record.emitted? (.event e)).toList (Record.result? (.event e)).toList where
  nests := .event h .nil
  moves := by cases e <;> rfl
  entered := rfl
  emitted := by cases e <;> rfl
  results := by cases e <;> rfl

theorem filterMap_scope {β : Type} {f : Record → Option β} {s : Scope}
    (ho : f (.opened s) = none) (hl : f (.left s) = none) :
    List.filterMap f (Record.opened s :: .entered s :: j ++ [.left s]) =
      (f (.entered s)).toList ++ j.filterMap f := by
  cases he : f (.entered s) <;> simp [ho, hl, he]

/-- A scope of its own changes nothing about what is told in it. -/
theorem Tells.scope {s : Scope} (h : Belongs text inside (.opened s))
    (hj : Tells text (s :: inside) j ms ss us rs) :
    Tells text inside (.opened s :: .entered s :: j ++ [.left s]) ms (s :: ss) us rs where
  nests := .enter h (hj.nests.append (.leave .nil))
  moves := (filterMap_scope rfl rfl).trans hj.moves
  entered := (filterMap_scope rfl rfl).trans (congrArg (s :: ·) hj.entered)
  emitted := (filterMap_scope rfl rfl).trans hj.emitted
  results := (filterMap_scope rfl rfl).trans hj.results

theorem tells_moves (ms : List Move) :
    Tells text [.evaluate, .calculate text] (ms.map fun m => .event (.transition m)) ms [] []
      [] := by
  induction ms with
  | nil => exact tells_nil
  | cons m ms ih => exact (tells_event (.transition m)).append ih

theorem tells_releases (t : String) (ts : List Token) :
    Tells text [.accept t, .evaluate, .calculate text] (ts.flatMap Rpn.recordRelease) [] []
      (ts.map Token.text) [] := by
  induction ts with
  | nil => exact tells_nil
  | cons u ts ih =>
    cases u with
    | fault f =>
      exact (tells_event (.unbalanced ..)).append ((tells_event (.emitting ..)).append ih)
    | _ => exact (tells_event (.emitting ..)).append ih

/-- A token that is accepted has a scope of its own, and in there is said what it releases. -/
theorem tells_recordAccept (y : Yard) (t : Token) :
    Tells text [.evaluate, .calculate text] (Rpn.recordAccept t (y.accept t).1) []
      [.accept t.text] ((y.accept t).1.map Token.text) [] := by
  cases t with
  | fault f =>
    exact .scope (.accept _) ((tells_event (.passingOn _)).append (tells_event (.emitting ..)))
  | _ => exact .scope (.accept _) (tells_releases _ _)

/-- How the journal of the calculation of `text` begins. -/
def beginning (text : String) : Journal :=
  [.opened (.calculate text), .entered (.calculate text), .opened .evaluate, .entered .evaluate]

/-- The tokens `ts` have been pulled, and what happened to them is written down in `j`. -/
structure Recorded (text : String) (ts : List Token) (j : Journal) (p : Rpn Logged) : Prop where
  rest : tokenize text = ts ++ toList p.supply.scanner
  yard : p.yard = ({} : Yard).after ts
  journal : p.supply.journal = beginning text ++ j
  tells : ∃ ms, Leads (Scanner.ofText text) ms p.supply.scanner ∧
    Tells text [.evaluate, .calculate text] j ms (ts.map fun t => .accept t.text)
      ((({} : Yard).released ts).map Token.text) []

theorem Recorded.accept {supply : Logged} (h : Recorded text ts j p) (hc : p.isCorrect = true)
    (hs : TokenStream.next p.supply = (some t, supply)) :
    Recorded text (ts ++ [t]) (j ++ (p.supply.scanner.next.moves.map fun m =>
      .event (.transition m)) ++ Rpn.recordAccept t (p.yard.accept t).1)
      (Rpn.accept { p with supply } t) := by
  obtain ⟨hnext, hleads, hj⟩ := next_logged hs
  obtain ⟨ms, hms, htells⟩ := h.tells
  have hcorrect : (({} : Yard).after ts).isCorrect = true := h.yard ▸ hc
  refine ⟨?_, ?_, ?_, ms ++ p.supply.scanner.next.moves, hms.append hleads, ?_⟩
  · rw [h.rest, toList_of_some hnext, List.append_assoc]
    rfl
  · rw [Yard.after_append, Yard.after_singleton hcorrect, ← h.yard]
    rfl
  · change supply.journal ++ Rpn.recordAccept t (p.yard.accept t).1 = _
    rw [hj, h.journal]
    simp only [List.append_assoc]
  · have hreleased : ({} : Yard).released (ts ++ [t]) =
        ({} : Yard).released ts ++ (p.yard.accept t).1 := by
      rw [Yard.released_append, Yard.released_cons hcorrect, h.yard]
      simp [Yard.released]
    rw [hreleased, List.map_append, List.map_append]
    have := (htells.append (tells_moves p.supply.scanner.next.moves)).append
      (tells_recordAccept p.yard t)
    simpa only [List.append_nil, List.map_cons, List.map_nil] using this

/-- Whatever is asked of reverse Polish notation, the journal keeps up with it. -/
theorem Recorded.next (h : Recorded text ts j p) : ∃ ts' j', Recorded text ts' j' p.next.2 := by
  induction p using Rpn.next_induction generalizing ts j with
  | ready p t ready hr =>
    rw [Rpn.next_of_ready hr]
    exact ⟨ts, j, h.rest, h.yard, h.journal, h.tells⟩
  | dry p supply hr hc hs =>
    rw [Rpn.next_of_none hr hc hs]
    have := next_logged_none hs
    subst this
    exact ⟨ts, j, h⟩
  | pull p t supply hr hc hs ih =>
    rw [Rpn.next_of_some hr hc hs]
    exact ih (h.accept hc hs)
  | failed p hr hc =>
    rw [Rpn.next_of_incorrect hr hc]
    exact ⟨ts, j, h⟩

theorem Recorded.run {c : Calculator} (h : Recorded text ts j p) :
    ∃ ts' j', Recorded text ts' j' (c.run p).2 := by
  fun_induction Calculator.run c p generalizing ts j with
  | case1 c p p' hn =>
    obtain ⟨ts', j', h'⟩ := h.next
    rw [show p.next = (none, p') from hn] at h'
    exact ⟨ts', j', h'⟩
  | case2 c p t p' hn _ c' hc ih =>
    obtain ⟨ts', j', h'⟩ := h.next
    rw [show p.next = (some t, p') from hn] at h'
    exact ih h'
  | case3 c p t p' hn =>
    obtain ⟨ts', j', h'⟩ := h.next
    rw [show p.next = (some t, p') from hn] at h'
    exact ⟨ts', j', h'⟩

theorem Recorded.toRpn_eq (h : Recorded text ts j p) :
    toRpn (Scanner.ofText text) =
      ({} : Yard).released ts ++ p.yard.released (toList p.supply.scanner) := by
  rw [h.yard, ← Yard.released_append, ← h.rest, toRpn_ofText]

theorem Recorded.released_isPrefix (h : Recorded text ts j p) :
    ({} : Yard).released ts <+: toRpn (Scanner.ofText text) :=
  ⟨_, h.toRpn_eq.symm⟩

/-- Once reverse Polish notation has run dry, all of it has been released. -/
theorem Recorded.released_eq (h : Recorded text ts j p) (hp : toList p = []) :
    ({} : Yard).released ts = toRpn (Scanner.ofText text) := by
  rw [Rpn.toList_eq, List.append_eq_nil_iff, toList_logged] at hp
  rw [h.toRpn_eq, hp.2, List.append_nil]

/-- What is written down once the tokens are used up or one of them has failed. -/
def ending : Except Failure Calculator → Journal
  | .ok c => [.event (.finished c.result)]
  | .error _ => []

theorem conclude_snd (x : Except Failure Calculator) :
    (Calculator.conclude x).2 = ending x ++ [.left .evaluate] := by
  cases x <;> rfl

theorem recorded_beginning (text : String) :
    Recorded text [] [] (Rpn.ofStream ⟨Scanner.ofText text, beginning text⟩) where
  rest := rfl
  yard := rfl
  journal := (List.append_nil _).symm
  tells := ⟨[], .nil, tells_nil⟩

/-- A calculation leaves the tokens that it did not pull, and a journal of those that it did. Unless
a token fails, all that reverse Polish notation yields has been released. -/
theorem exists_recorded (text : String) :
    ∃ ts j p, Recorded text ts j p ∧
      (∀ c, (toRpn (Scanner.ofText text)).foldlM Calculator.accept {} = .ok c → toList p = []) ∧
      (calculateFrom text (⟨Scanner.ofText text, []⟩ : Logged)).2 =
        ⟨p.supply.scanner, .opened (.calculate text) :: .entered (.calculate text) ::
          (.opened .evaluate :: .entered .evaluate ::
            (j ++ ending ((toRpn (Scanner.ofText text)).foldlM Calculator.accept {})) ++
          [.left .evaluate]) ++ [.left (.calculate text)]⟩ := by
  let p₀ : Rpn Logged := Rpn.ofStream ⟨Scanner.ofText text, beginning text⟩
  obtain ⟨ts, j, h⟩ := (recorded_beginning text).run (c := {})
  have hvalue : (Calculator.run {} p₀).1 =
      (toRpn (Scanner.ofText text)).foldlM Calculator.accept {} := by
    rw [Calculator.run_fst, Rpn.toList_eq, toRpn_eq, toList_logged]
    rfl
  refine ⟨ts, j, (Calculator.run {} p₀).2, h, ?_, ?_⟩
  · intro c hc
    rw [← hvalue] at hc
    rw [Calculator.run_snd_of_ok hc, toList_drain_snd]
  · rw [← hvalue]
    let s₀ : Logged :=
      ⟨Scanner.ofText text, [.opened (.calculate text), .entered (.calculate text)]⟩
    have hnote : TokenStream.note [.opened .evaluate, .entered .evaluate] (Rpn.ofStream s₀) = p₀ :=
      rfl
    change TokenStream.note [.left (.calculate text)] (evaluate (Rpn.ofStream s₀)).2.supply = _
    have hjournal : ∀ x p, Calculator.run {} p₀ = (x, p) →
        p.supply.journal = beginning text ++ j := by
      intro x p hr
      rw [← h.journal]
      exact congrArg (·.2.supply.journal) hr.symm
    rcases hr : Calculator.run {} p₀ with ⟨x, p⟩
    simp only [evaluate, hnote, hr]
    simp [TokenStream.note, Rpn.note, conclude_snd, hjournal _ _ hr, beginning]

theorem tells_ending (x : Except Failure Calculator) :
    Tells text [.evaluate, .calculate text] (ending x) [] [] []
      ((ending x).filterMap Record.result?) := by
  cases x with
  | error e => exact tells_nil
  | ok c => exact tells_event (.finished c.result)

theorem mem_results {r : Except Failure Int32} :
    .event (.finished r) ∈ j ↔ r ∈ j.filterMap Record.result? := by
  have hresult : ∀ x : Record, x.result? = some r ↔ x = .event (.finished r) := by
    intro x
    unfold Record.result?
    split
    · simp
    · next hne => simpa using hne r
  simp [List.mem_filterMap, hresult]

/-- The full journal of a calculation. Scopes are left in the order opposite to that in which they
were entered: the evaluation lies in the calculation, and directly in it lie the scopes of the
tokens that were pulled, one for each and in their order. Between those lie the transitions of the
scanner, which follow one another from the start of its machine, and what they were offered is the
beginning of the text. Inside those it is said what is released, which is the beginning of what the
text reads as in reverse Polish notation. If no token fails it is all of that, and then, and only
then, the result is written down: once, after all else, and the right one. -/
theorem journal_faithful (text : String) :
    let j := (journal text).upTo .trace
    let left := (calculateFrom text (⟨Scanner.ofText text, []⟩ : Logged)).2.scanner
    let rpn := toRpn (Scanner.ofText text)
    let passes := ∃ c, rpn.foldlM Calculator.accept {} = .ok c
    Nests (Belongs text) [] j [] ∧
    (∃ pulled, tokenize text = pulled ++ toList left ∧
      j.filterMap Record.entered? =
        .calculate text :: .evaluate :: pulled.map fun t => .accept t.text) ∧
    (∃ last, Path (Source.ofText "<input>" text) .start (j.filterMap Record.move?) last) ∧
    offers none (j.filterMap Record.move?) <+: Text.indexed 0 text.toList ∧
    j.filterMap Record.emitted? <+: rpn.map Token.text ∧
    (passes → j.filterMap Record.emitted? = rpn.map Token.text) ∧
    (passes ↔ ∃ r, .event (.finished r) ∈ j) ∧
    ∀ r, .event (.finished r) ∈ j →
      j.filterMap Record.result? = [r] ∧
      (j.filterMap Record.event?).getLast? = some (.finished r) ∧
      ∀ reporter, (calculate text reporter).1 = r.mapError .evaluation := by
  intro j left rpn passes
  obtain ⟨ts, k, p, h, hdry, hend⟩ := exists_recorded text
  obtain ⟨ms, hleads, htells⟩ := h.tells
  have hj : j = _ := (Journal.upTo_trace _).trans (congrArg Logged.journal hend)
  have hleft : left = p.supply.scanner := (congrArg Logged.scanner hend :)
  have hwhole : Tells text [] j ms
      (.calculate text :: .evaluate :: ts.map fun t => .accept t.text)
      ((({} : Yard).released ts).map Token.text)
      ((ending (rpn.foldlM Calculator.accept {})).filterMap Record.result?) := by
    rw [hj]
    have := htells.append (tells_ending (rpn.foldlM Calculator.accept {}))
    simp only [List.append_nil, List.nil_append] at this
    exact .scope .calculate (.scope .evaluate this)
  refine ⟨hwhole.nests, ⟨ts, hleft ▸ h.rest, hwhole.entered⟩, ?_, ?_, ?_, ?_, ?_, ?_⟩
  · rw [hwhole.moves]
    exact hleads.exists_path
  · rw [hwhole.moves]
    exact hleads.offers_isPrefix
  · rw [hwhole.emitted]
    exact h.released_isPrefix.map _
  · rintro ⟨c, hc⟩
    rw [hwhole.emitted, h.released_eq (hdry c hc)]
  · simp only [mem_results, hwhole.results]
    rcases hx : rpn.foldlM Calculator.accept {} with e | c
    · simp [passes, hx, ending]
    · simp [passes, hx, ending, Record.result?]
  · intro r hr
    rw [mem_results, hwhole.results] at hr
    rcases hx : rpn.foldlM Calculator.accept {} with e | c
    · rw [hx] at hr
      cases hr
    · rw [hx] at hr
      obtain rfl : r = c.result := List.mem_singleton.1 hr
      refine ⟨by rw [hwhole.results, hx]; rfl, ?_, fun reporter => ?_⟩
      · have hevents : j.filterMap Record.event? =
            k.filterMap Record.event? ++ [.finished c.result] := by
          rw [hj, hx, filterMap_scope (f := Record.event?) rfl rfl,
            filterMap_scope (f := Record.event?) rfl rfl, List.filterMap_append]
          rfl
        rw [hevents, List.getLast?_concat]
      · rw [calculate_fst, ← toRpn_ofText]
        change (rpn.foldlM Calculator.accept {} >>= Calculator.result).mapError _ = _
        rw [hx]
        rfl

end Reckon
