import Reckon.Proofs.Eager

/-! The lines of an input are run one after the other as if each were run alone. -/

namespace Reckon.CommandLine

/-- An input and its lines. A line feed ends a line, and so do a carriage return and a line feed
together. What follows the last line feed is a line only if there is something. -/
inductive Cuts : List UInt8 → List (List UInt8) → Prop where
  | done : Cuts [] []
  | last {line : List UInt8} (hne : line ≠ []) (hl : lineFeed ∉ line) : Cuts line [line]
  | feed {line rest : List UInt8} {lines : List (List UInt8)} (hl : lineFeed ∉ line)
    (hc : line.getLast? ≠ some carriageReturn) :
    Cuts rest lines → Cuts (line ++ lineFeed :: rest) (line :: lines)
  | pair {line rest : List UInt8} {lines : List (List UInt8)} (hl : lineFeed ∉ line) :
    Cuts rest lines → Cuts (line ++ carriageReturn :: lineFeed :: rest) (line :: lines)

/-- The text of a line, if it is UTF-8. -/
def decode? (line : List UInt8) : Option String := String.fromUTF8? line.toByteArray

/-- What several runs write, one after the other. One that fails makes all of them fail. -/
def joined (runs : List Outcome) : Outcome where
  exitCode := if ∃ run ∈ runs, run.exitCode = 1 then 1 else 0
  stdout := String.join (runs.map Outcome.stdout)
  stderr := String.join (runs.map Outcome.stderr)

/-- The run of a single text. -/
def alone (rpn colored : Bool) (text : String) : Outcome :=
  let (output, r) := runExpression rpn text { policy := .print colored }
  ⟨if r.hasReceived then 1 else 0, output, r.written⟩

/-- The reporter once what a run reports has been handed to it. -/
def noted (r : Reporter) (run : Outcome) : Reporter :=
  { r with hasReceived := r.hasReceived || run.exitCode = 1, written := r.written ++ run.stderr }

variable {input line acc : List UInt8} {lines : List (List UInt8)} {flags : List String}
  {o o' : Options} {r : Reporter} {rpn colored : Bool} {texts : List String} {text : String}

theorem cutLines_feed (acc rest : List UInt8) :
    cutLines acc (lineFeed :: rest) =
      (if acc.head? = some carriageReturn then acc.tail else acc).reverse :: cutLines [] rest := by
  rw [cutLines, if_pos rfl]

theorem cutLines_append (hl : lineFeed ∉ line) (acc rest : List UInt8) :
    cutLines acc (line ++ rest) = cutLines (line.reverse ++ acc) rest := by
  induction line generalizing acc with
  | nil => rfl
  | cons b line ih =>
    have hb : b ≠ lineFeed := fun h => hl (h ▸ List.mem_cons_self)
    have hline : lineFeed ∉ line := fun h => hl (List.mem_cons_of_mem b h)
    rw [List.cons_append, cutLines, if_neg hb, ih hline]
    simp

theorem Cuts.inputLines_eq (h : Cuts input lines) : inputLines input = lines := by
  induction h with
  | done => rfl
  | @last line hne hl =>
    have := cutLines_append hl [] []
    rw [List.append_nil] at this
    simp [inputLines, this, cutLines, hne]
  | feed hl hc _ ih =>
    rw [inputLines, cutLines_append hl, cutLines_feed]
    simpa [hc, inputLines] using ih
  | @pair line rest lines hl _ ih =>
    have hline : lineFeed ∉ line ++ [carriageReturn] := by
      simpa [lineFeed, carriageReturn] using hl
    rw [inputLines, List.append_cons, cutLines_append hline, cutLines_feed]
    simpa [inputLines] using ih

theorem cuts_cutLines (hl : lineFeed ∉ acc) (input : List UInt8) :
    Cuts (acc.reverse ++ input) (cutLines acc input) := by
  fun_induction cutLines acc input with
  | case1 => exact .done
  | case2 acc hne =>
    rw [List.append_nil]
    exact .last (by simpa using hne) (by simpa using hl)
  | case3 acc rest line ih =>
    have hrest := ih (by simp)
    by_cases hc : acc.head? = some carriageReturn
    · obtain ⟨acc, rfl⟩ := List.head?_eq_some_iff.1 hc
      have hline : line = acc := by simp [line]
      have hacc : lineFeed ∉ acc.reverse := by
        simp only [List.mem_cons, not_or] at hl
        simpa using hl.2
      rw [hline, List.reverse_cons, List.append_assoc]
      exact .pair hacc hrest
    · have hline : line = acc := by simp [line, hc]
      rw [hline]
      exact .feed (by simpa using hl) (by simpa using hc) hrest
  | case4 acc b rest hb ih =>
    have := ih (by simpa [hl] using Ne.symm hb)
    simpa using this

/-- An input has its lines and no others. -/
theorem cuts_iff : Cuts input lines ↔ inputLines input = lines := by
  constructor
  · exact Cuts.inputLines_eq
  · rintro rfl
    exact @cuts_cutLines [] (by simp) input

theorem exists_cuts (h : ∀ line ∈ lines, lineFeed ∉ line) : ∃ input, Cuts input lines := by
  induction lines with
  | nil => exact ⟨[], .done⟩
  | cons line lines ih =>
    obtain ⟨hline, hlines⟩ := List.forall_mem_cons.1 h
    obtain ⟨input, hc⟩ := ih hlines
    exact ⟨_, .pair hline hc⟩

/-- An argument that ends the reading is no run. -/
theorem setRpn_ne_run (o o' : Options) : o.setRpn ≠ .stop (.run o') := by
  unfold Options.setRpn
  split <;> nofun

theorem setNoColor_ne_run (o o' : Options) : o.setNoColor ≠ .stop (.run o') := by
  unfold Options.setNoColor
  split <;> nofun

theorem setExpression_ne_run (o o' : Options) (text : String) :
    o.setExpression text ≠ .stop (.run o') := by
  unfold Options.setExpression
  split <;> nofun

theorem readLong_ne_run (o o' : Options) (name : String) : readLong o name ≠ .stop (.run o') := by
  unfold readLong
  split
  · exact setRpn_ne_run o o'
  · exact setNoColor_ne_run o o'
  all_goals nofun

theorem readShort_ne_run (o o' : Options) (cs : List Char) : readShort o cs ≠ .stop (.run o') := by
  fun_induction readShort o cs with
  | case2 => assumption
  | case3 o cs h =>
    intro hr
    exact setRpn_ne_run o o' hr
  | _ => nofun

theorem readArgument_ne_run (o o' : Options) (a : String) :
    readArgument o a ≠ .stop (.run o') := by
  unfold readArgument
  split
  · exact readLong_ne_run o o' _
  · exact readShort_ne_run o o' _
  · exact setExpression_ne_run o o' a

theorem readArguments_cons {a : String} (ha : a ≠ "--") (o : Options) (rest : List String) :
    readArguments o (a :: rest) =
      match readArgument o a with
      | .continue o => readArguments o rest
      | .stop request => request := by
  refine (readArguments.eq_3 o a rest ha).trans ?_
  cases readArgument o a <;> rfl

theorem readArguments_append (hf : "--" ∉ flags) (h : readArguments o flags = .run o')
    (rest : List String) :
    readArguments o (flags ++ "--" :: rest) = readExpressions o' rest := by
  induction flags generalizing o with
  | nil =>
    cases h
    rfl
  | cons a flags ih =>
    have ha : a ≠ "--" := fun h => hf (h ▸ List.mem_cons_self)
    have hflags : "--" ∉ flags := fun h => hf (List.mem_cons_of_mem a h)
    rw [readArguments_cons ha] at h
    rw [List.cons_append, readArguments_cons ha]
    cases hr : readArgument o a with
    | «continue» o₁ =>
      rw [hr] at h
      exact ih hflags h
    | stop request =>
      rw [hr] at h
      subst h
      exact (readArgument_ne_run o o' a hr).elim

theorem foldl_noted (r : Reporter) (runs : List Outcome) :
    runs.foldl noted r =
      { r with
        hasReceived := r.hasReceived || runs.any (·.exitCode = 1)
        written := r.written ++ String.join (runs.map Outcome.stderr) } := by
  induction runs generalizing r with
  | nil => simp
  | cons run runs ih => simp [ih, noted, String.append_assoc, Bool.or_assoc]

theorem runExpression_eq (rpn : Bool) (text : String) (r : Reporter) :
    runExpression rpn text r =
      ((if rpn then trace text else "") ++ runExpression.printed (calculate text r).1,
        r.receiveFrom (calculate text r).1) := by
  cases rpn with
  | false => simp [runExpression_false]
  | true => simp [runExpression_true]

/-- What a reporter has received before changes nothing about what is added to it. -/
theorem runExpression_alone (hr : r.policy = .print colored) (rpn : Bool) (text : String) :
    runExpression rpn text r =
      ((alone rpn colored text).stdout, noted r (alone rpn colored text)) := by
  have hvalue : ∀ r', (calculate text r').1 = (calculate text r).1 := fun _ => rfl
  simp only [alone, runExpression_eq, hvalue]
  rcases (calculate text r).1 with e | v
  · simp [noted, Reporter.receiveFrom, Reporter.receive, hr]
  · simp [noted, Reporter.receiveFrom]

/-- Lines that are UTF-8 are run one by one, and then the rest. -/
theorem runLines_append (rpn : Bool) (hr : r.policy = .print colored)
    (h : lines.map decode? = texts.map some) (rest : List (List UInt8)) :
    let runs := (texts.filter fun text => !text.toList.all Text.isBlank).map (alone rpn colored)
    let tail := runLines rpn (runs.foldl noted r) rest
    runLines rpn r (lines ++ rest) = (tail.1, (joined runs).stdout ++ tail.2.1, tail.2.2) := by
  induction lines generalizing r texts with
  | nil =>
    cases texts with
    | nil => simp [joined]
    | cons => cases h
  | cons line lines ih =>
    cases texts with
    | nil => cases h
    | cons text texts =>
      obtain ⟨htext, htexts⟩ := List.cons.inj h
      have hline : String.fromUTF8? line.toByteArray = some text := htext
      rw [List.cons_append, runLines, hline]
      by_cases hb : text.toList.all Text.isBlank = true
      · simp only [hb, if_true, List.filter_cons, Bool.not_true, Bool.false_eq_true, if_false]
        exact ih hr htexts
      · have hr' : (noted r (alone rpn colored text)).policy = .print colored := hr
        have hb : text.toList.all Text.isBlank = false := by simpa using hb
        simp only [hb, List.filter_cons, Bool.not_false, if_true, List.map_cons, List.foldl_cons,
          Bool.false_eq_true, if_false, runExpression_alone hr, ih hr' htexts]
        simp [joined, String.append_assoc]

/-- The arguments that ask for a text instead of the input. -/
theorem ofArguments_append {rpn noColor : Bool} (hf : "--" ∉ flags)
    (h : Request.ofArguments flags = .run { rpn, noColor }) (text : String) :
    Request.ofArguments (flags ++ ["--", text]) =
      .run { expression? := some text, rpn, noColor } := by
  rw [Request.ofArguments, readArguments_append hf h]
  rfl

/-- Lines read from the input are run like texts given one by one after the same flags. Blank ones
are passed over, and the first that is not UTF-8 ends the run. -/
theorem perform_lines {rpn noColor : Bool} (hf : "--" ∉ flags)
    (h : Request.ofArguments flags = .run { rpn, noColor }) (surroundings : Surroundings)
    (other : List UInt8) :
    let whole := fun input => (Request.ofArguments flags).perform surroundings input
    let single := fun text =>
      (Request.ofArguments (flags ++ ["--", text])).perform surroundings other
    let runs := fun texts : List String =>
      (texts.filter fun text => !text.toList.all Text.isBlank).map single
    (∀ input, ∃ lines, Cuts input lines) ∧
    (∀ lines, (∀ line ∈ lines, lineFeed ∉ line) → ∃ input, Cuts input lines) ∧
    (∀ input lines texts, Cuts input lines → lines.map decode? = texts.map some →
      whole input = joined (runs texts)) ∧
    ∀ input lines texts bad rest, Cuts input (lines ++ bad :: rest) →
      lines.map decode? = texts.map some → decode? bad = none →
      whole input = { joined (runs texts) with
        exitCode := 1
        stderr := (joined (runs texts)).stderr ++ surroundings.complaint } := by
  intro whole single runs
  have hsingle : single = alone rpn (!noColor && surroundings.wantsColor) := by
    funext text
    simp only [single, ofArguments_append hf h, Request.perform, alone]
  let reporter : Reporter := { policy := .print (!noColor && surroundings.wantsColor) }
  have hreporter : reporter.policy = .print (!noColor && surroundings.wantsColor) := rfl
  refine ⟨fun input => ⟨_, cuts_iff.2 rfl⟩, fun lines => exists_cuts, ?_, ?_⟩
  · intro input lines texts hc ht
    have hrun := runLines_append rpn hreporter ht []
    rw [List.append_nil] at hrun
    simp only [whole, runs, hsingle, h, Request.perform, cuts_iff.1 hc]
    rw [hrun, foldl_noted]
    generalize (texts.filter _).map _ = outcomes
    simp [joined, runLines, reporter]
  · intro input lines texts bad rest hc ht hbad
    have hrun := runLines_append rpn hreporter ht (bad :: rest)
    simp only [whole, runs, hsingle, h, Request.perform, cuts_iff.1 hc]
    have hbad : String.fromUTF8? bad.toByteArray = none := hbad
    rw [hrun, foldl_noted, runLines, hbad]
    simp [joined, reporter]

/-- One line has a value, one is blank, one fails, and the fourth is not UTF-8. -/
theorem perform_lines_broken :
    let flags := ["-r"]
    let surroundings : Surroundings := { complaint := "not UTF-8\n" }
    let whole := fun input => (Request.ofArguments flags).perform surroundings input
    let single := fun text =>
      (Request.ofArguments (flags ++ ["--", text])).perform surroundings []
    let input : List UInt8 := [49, 10, 32, 10, 40, 13, 10, 255, 10, 50]
    ("--" ∉ flags ∧ Request.ofArguments flags = .run { rpn := true }) ∧
    Cuts input ([[49], [32], [40]] ++ [255] :: [[50]]) ∧
    [[49], [32], [40]].map decode? = ["1", " ", "("].map some ∧ decode? [255] = none ∧
    whole input = { joined [single "1", single "("] with
      exitCode := 1
      stderr := (joined [single "1", single "("]).stderr ++ "not UTF-8\n" } := by
  intro flags surroundings whole single input
  have hf : "--" ∉ flags := by simp [flags]
  have hr : Request.ofArguments flags = .run { rpn := true } := rfl
  have hc : Cuts input ([[49], [32], [40]] ++ [255] :: [[50]]) := cuts_iff.2 rfl
  have ht : [[49], [32], [40]].map decode? = ["1", " ", "("].map some := rfl
  have hbad : decode? [255] = none := rfl
  exact ⟨⟨hf, hr⟩, hc, ht, hbad,
    (perform_lines hf hr surroundings []).2.2.2 input _ _ _ _ hc ht hbad⟩

end Reckon.CommandLine
