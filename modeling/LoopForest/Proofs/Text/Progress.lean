import LoopForest.Proofs.Text.Clear
import LoopForest.Proofs.Text.Lexicon

/-!
# Calls of one lexer

A lexer is called again where the last call has left it, behind a fault or at the end of the text. Wherever that is, it stands between
two parts of its source (`Lexer.between`): its place is the one behind the first part, and the pieces to come are those of the second.
One call takes something of the second part (`Lexer.Takes`). When it stops, that is not nothing, since the piece with the fault is
used up; when it answers tokens, that is all there is.

So there are no more faults than characters (`Lexer.tokenize_repeated`), and whatever the calls answer stands further on in the source
than what was answered before.
-/

namespace LoopForest

open Location
open Piece (flatten)

/-- Some pieces of a text are no more than the characters they are made of. -/
theorem Piece.length_le_flatten {cs : List Char} {front back : List Piece} (h : pieces cs = front ++ back) :
    front.length ≤ (flatten front).length := by
  have hne : ∀ p ∈ front, p.text ≠ [] := fun p hp => by
    have hmem : p ∈ pieces cs := h ▸ List.mem_append_left back hp
    exact text_ne_nil hmem
  clear h
  induction front with
  | nil => exact Nat.le_refl _
  | cons p front ih =>
    obtain ⟨hp, hfront⟩ := List.forall_mem_cons.mp hne
    have hpos := List.length_pos_iff.mpr hp
    rw [flatten_cons, List.length_append, List.length_cons]
    have hrest := ih hfront
    omega

theorem Stands.ne_nil {kind : TokenKind} {text rest : List Char} (h : Stands kind text rest) : text ≠ [] := by
  cases h <;> simp

/-- What comes before a place comes before every place further on. -/
theorem Location.Before.append {l : Location} {text : List Char} (h : l.Before (behind text)) (more : List Char) :
    l.Before (behind (text ++ more)) := by
  by_cases hmore : more = []
  · rwa [hmore, List.append_nil]
  · exact h.trans (behind_before_append text hmore)

namespace Lexer

/-! ## One call -/

/-- A lexer that has read `passed` and has `ahead` before it. -/
def between (passed ahead : List Char) : Lexer := ⟨behind passed, Piece.pieces ahead⟩

/-- The places an answer shows: those of its tokens, or that of its fault. -/
def places : Except LexError (List Token) → List Location
  | .ok ts => ts.map (·.location)
  | .error e => [e.location]

/-- A call of a lexer that has read `passed`, with its answer and the lexer it leaves: it takes `taken` and leaves `rest`. -/
structure Takes (passed taken rest : List Char) (call : Except LexError (List Token) × Lexer) : Prop where
  lexer_eq : call.2 = between (passed ++ taken) rest
  /-- The call reads pieces one by one, and these are no more than the characters it takes. -/
  pieces_eq : ∃ front, Piece.pieces (taken ++ rest) = front ++ Piece.pieces rest ∧ front.length ≤ taken.length
  rest_eq_nil : call.1.isOk → rest = []
  taken_ne_nil : call.1.isOk = false → taken ≠ []
  stands : ∀ ts, call.1 = .ok ts → ∀ t ∈ ts, t.StandsIn passed taken
  places_pairwise : (places call.1).Pairwise Before
  /-- What the call answers stands in what it takes. -/
  place_inside : ∀ m ∈ places call.1, ∃ more tail, taken = more ++ tail ∧ tail ≠ [] ∧ m = behind (passed ++ more)

variable {passed ahead : List Char}

/-- A call that comes to the end of the text takes all of it. -/
theorem takes_of_clear (h : ∀ p ∈ Piece.pieces ahead, p.IsClear) : Takes passed ahead [] (between passed ahead).tokenize := by
  have hcall : (between passed ahead).tokenize =
      (.ok (scanned (behind passed) (Piece.pieces ahead)), ⟨behind (passed ++ ahead), []⟩) := by
    rw [tokenize, between, read_of_clear h, ← Piece.eq_flatten rfl, after_behind]
  have hread : (read (start.after passed) (Piece.pieces ahead)).1 = .ok (scanned (behind passed) (Piece.pieces ahead)) :=
    read_eq_ok_iff.mpr ⟨h, by rw [after_start]⟩
  have hstands := standsIn_of_read hread
  rw [hcall]
  constructor
  case lexer_eq => rw [between, Piece.pieces_nil]
  case pieces_eq =>
    refine ⟨Piece.pieces ahead, by rw [List.append_nil, Piece.pieces_nil, List.append_nil], ?_⟩
    have hlength := Piece.length_le_flatten (List.append_nil (Piece.pieces ahead)).symm
    rwa [← Piece.eq_flatten rfl] at hlength
  case rest_eq_nil => exact fun _ => rfl
  case taken_ne_nil => exact nofun
  case stands => exact fun ts hts => Except.ok.inj hts ▸ hstands
  case places_pairwise => exact List.pairwise_map.mpr (spells_of_read hread).pairwise
  case place_inside =>
    intro m hm
    obtain ⟨t, ht, rfl⟩ := List.mem_map.mp hm
    obtain ⟨more, tail, htext, htplace, htstands⟩ := hstands t ht
    exact ⟨more, t.value.toList ++ tail, by rw [htext, List.append_assoc], by simp [htstands.ne_nil], htplace⟩

/-- A call that stops takes all up to the end of the piece with the fault. -/
theorem takes_of_fault (passed : List Char) {clear rest : List Piece} {cause : Fault} {text : List Char}
    (hpieces : Piece.pieces ahead = clear ++ ⟨.fault cause, text⟩ :: rest) (hclear : ∀ p ∈ clear, p.IsClear) :
    ahead = flatten clear ++ text ++ flatten rest ∧
      Takes passed (flatten clear ++ text) (flatten rest) (between passed ahead).tokenize := by
  have hsplit : Piece.pieces ahead = (clear ++ [⟨.fault cause, text⟩]) ++ rest := by rw [hpieces, List.append_assoc]; rfl
  have hfront : flatten (clear ++ [⟨.fault cause, text⟩]) = flatten clear ++ text := by simp
  have hahead : ahead = flatten clear ++ text ++ flatten rest := by
    rw [Piece.eq_flatten hsplit, Piece.flatten_append, hfront]
  have hbehind : Piece.pieces (flatten rest) = rest := Piece.pieces_flatten_behind hsplit
  have htext : text ≠ [] := by
    have hmem : (⟨.fault cause, text⟩ : Piece) ∈ Piece.pieces ahead := by rw [hpieces]; simp
    exact Piece.text_ne_nil hmem
  have hcall : (between passed ahead).tokenize =
      (.error ⟨cause.reason, behind (passed ++ flatten clear)⟩, between (passed ++ (flatten clear ++ text)) (flatten rest)) := by
    rw [tokenize, between, between, hpieces, read_of_fault hclear, after_behind, after_behind, hbehind]
  refine ⟨hahead, ?_⟩
  rw [hcall]
  constructor
  case lexer_eq => rfl
  case pieces_eq =>
    refine ⟨clear ++ [⟨.fault cause, text⟩], by rw [← hahead, hsplit, hbehind], ?_⟩
    rw [← hfront]
    exact Piece.length_le_flatten hsplit
  case rest_eq_nil => exact nofun
  case taken_ne_nil => exact fun _ => by simp [htext]
  case stands => exact nofun
  case places_pairwise => exact List.pairwise_singleton _ _
  case place_inside =>
    intro m hm
    obtain rfl := List.mem_singleton.mp hm
    exact ⟨flatten clear, text, rfl, htext, rfl⟩

/-- Every call takes something of what is ahead, perhaps nothing. -/
theorem exists_takes (passed ahead : List Char) :
    ∃ taken rest, ahead = taken ++ rest ∧ Takes passed taken rest (between passed ahead).tokenize := by
  rcases Piece.clear_or_fault (Piece.pieces ahead) with hclear | ⟨clear, cause, text, rest, hpieces, hclear⟩
  · exact ⟨ahead, [], (List.append_nil ahead).symm, takes_of_clear hclear⟩
  · obtain ⟨hahead, htakes⟩ := takes_of_fault passed hpieces hclear
    exact ⟨_, _, hahead, htakes⟩

/-! ## Call after call -/

/-- The lexer that some number of calls leave. -/
def afterCalls (lexer : Lexer) : Nat → Lexer
  | 0 => lexer
  | calls + 1 => (lexer.afterCalls calls).tokenize.2

/-- What some number of calls answer, one after the other. -/
def answers (lexer : Lexer) (calls : Nat) : List (Except LexError (List Token)) :=
  (List.range calls).map fun n => (lexer.afterCalls n).tokenize.1

theorem answers_succ (lexer : Lexer) (calls : Nat) :
    lexer.answers (calls + 1) = lexer.answers calls ++ [(lexer.afterCalls calls).tokenize.1] := by
  rw [answers, List.range_succ, List.map_append]
  rfl

/-- A lexer of this source that has been called this often has read `passed` and has `ahead` before it. Each of its faults has cost a
character, what it has answered stands in `passed`, and when an answer was no fault, nothing is ahead. -/
structure InStep (source : String) (calls : Nat) (passed ahead : List Char) : Prop where
  source_eq : source.toList = passed ++ ahead
  lexer_eq : (ofSource source).afterCalls calls = between passed ahead
  faults_le : ((ofSource source).answers calls).countP (!·.isOk) ≤ passed.length
  places_pairwise : (((ofSource source).answers calls).flatMap places).Pairwise Before
  place_before : ∀ m ∈ ((ofSource source).answers calls).flatMap places, m.Before (behind passed)
  ahead_eq_nil : ∀ a ∈ (ofSource source).answers calls, a.isOk → ahead = []
  later_nil : ((ofSource source).answers calls).Pairwise fun a b => a.isOk → b = .ok []
  stands : ∀ ts, .ok ts ∈ (ofSource source).answers calls → ∀ t ∈ ts, t.StandsIn [] source.toList

theorem InStep.start (source : String) : InStep source 0 [] source.toList where
  source_eq := rfl
  lexer_eq := rfl
  faults_le := Nat.le_refl _
  places_pairwise := .nil
  place_before := nofun
  ahead_eq_nil := nofun
  later_nil := .nil
  stands := nofun

/-- At the end of the text a call answers no tokens. -/
theorem tokenize_between_nil (passed : List Char) : (between passed []).tokenize.1 = .ok [] := by
  rw [tokenize, between, Piece.pieces_nil]
  rfl

variable {source : String} {calls : Nat} {taken rest : List Char}

/-- A call stays in step. -/
theorem InStep.call (h : InStep source calls passed (taken ++ rest))
    (htakes : Takes passed taken rest (between passed (taken ++ rest)).tokenize) : InStep source (calls + 1) (passed ++ taken) rest := by
  have hanswers := answers_succ (ofSource source) calls
  rw [h.lexer_eq] at hanswers
  generalize hcall : (between passed (taken ++ rest)).tokenize = call at htakes hanswers
  -- a call behind the last answer without a fault finds nothing ahead
  have hnil : ∀ a ∈ (ofSource source).answers calls, a.isOk → call.1 = .ok [] := fun a ha hok => by
    rw [← hcall, h.ahead_eq_nil a ha hok, tokenize_between_nil]
  constructor
  case source_eq => rw [h.source_eq, List.append_assoc]
  case lexer_eq => rw [afterCalls, h.lexer_eq, hcall, htakes.lexer_eq]
  case faults_le =>
    rw [hanswers, List.countP_append, List.length_append]
    refine Nat.add_le_add h.faults_le ?_
    cases hok : call.1.isOk with
    | true => simp [hok]
    | false => simpa [hok, Nat.one_le_iff_ne_zero] using htakes.taken_ne_nil hok
  case places_pairwise =>
    rw [hanswers, List.flatMap_append, List.pairwise_append]
    refine ⟨h.places_pairwise, by simpa using htakes.places_pairwise, fun l hl m hm => ?_⟩
    obtain ⟨more, tail, -, -, rfl⟩ := htakes.place_inside m (by simpa using hm)
    exact (h.place_before l hl).append more
  case place_before =>
    intro m hm
    rw [hanswers, List.flatMap_append, List.mem_append] at hm
    rcases hm with hm | hm
    · exact (h.place_before m hm).append taken
    · obtain ⟨more, tail, rfl, htail, rfl⟩ := htakes.place_inside m (by simpa using hm)
      rw [← List.append_assoc]
      exact behind_before_append _ htail
  case ahead_eq_nil =>
    intro a ha hok
    rw [hanswers, List.mem_append, List.mem_singleton] at ha
    rcases ha with ha | rfl
    · exact (List.append_eq_nil_iff.mp (h.ahead_eq_nil a ha hok)).2
    · exact htakes.rest_eq_nil hok
  case later_nil =>
    rw [hanswers, List.pairwise_append]
    exact ⟨h.later_nil, List.pairwise_singleton _ _, fun a ha b hb => List.mem_singleton.mp hb ▸ hnil a ha⟩
  case stands =>
    intro ts hts
    rw [hanswers, List.mem_append, List.mem_singleton] at hts
    rcases hts with hts | hts
    · exact h.stands ts hts
    · have hrest := htakes.rest_eq_nil (by rw [← hts]; rfl)
      intro t ht
      rw [h.source_eq, hrest, List.append_nil]
      exact (htakes.stands ts hts.symm t ht).prepend

/-- A lexer is in step with its source after any number of calls. -/
theorem exists_inStep (source : String) (calls : Nat) : ∃ passed ahead, InStep source calls passed ahead := by
  induction calls with
  | zero => exact ⟨[], source.toList, .start source⟩
  | succ calls ih =>
    obtain ⟨passed, ahead, h⟩ := ih
    obtain ⟨taken, rest, rfl, htakes⟩ := exists_takes passed ahead
    exact ⟨passed ++ taken, rest, h.call htakes⟩

/-- So what is to be read is always a text cut into pieces. -/
theorem exists_pending_afterCalls (source : String) (calls : Nat) :
    ∃ rest, ((ofSource source).afterCalls calls).pending = Piece.pieces rest := by
  obtain ⟨passed, ahead, h⟩ := exists_inStep source calls
  exact ⟨ahead, by rw [h.lexer_eq, between]⟩

/-- However often a lexer is called, the next call finds it between two parts of its source and leaves it between two parts again, moved
on by no fewer characters than it reads pieces, and by one at least when it stops at a fault. So no more calls stop than the source has
characters, and behind one that does not stop all calls answer no tokens. The places that all these answers show, of tokens and of
faults, stand one behind the other, and each token stands in the source at its place. -/
theorem tokenize_repeated (source : String) (calls : Nat) :
    (∃ passed taken rest, source.toList = passed ++ (taken ++ rest) ∧
      (ofSource source).afterCalls calls = between passed (taken ++ rest) ∧
      (ofSource source).afterCalls (calls + 1) = between (passed ++ taken) rest ∧
      Takes passed taken rest ((ofSource source).afterCalls calls).tokenize) ∧
    ((ofSource source).answers calls).countP (!·.isOk) ≤ source.length ∧
    (((ofSource source).answers calls).Pairwise fun a b => a.isOk → b = .ok []) ∧
    (((ofSource source).answers calls).flatMap places).Pairwise Before ∧
    ∀ ts, .ok ts ∈ (ofSource source).answers calls → ∀ t ∈ ts, ∃ before rest,
      source.toList = before ++ t.value.toList ++ rest ∧ t.location = behind before := by
  obtain ⟨passed, ahead, h⟩ := exists_inStep source calls
  obtain ⟨taken, rest, rfl, htakes⟩ := exists_takes passed ahead
  refine ⟨⟨passed, taken, rest, h.source_eq, h.lexer_eq, (h.call htakes).lexer_eq, h.lexer_eq ▸ htakes⟩, ?_, h.later_nil,
    h.places_pairwise, fun ts hts t ht => ?_⟩
  · have hlength : source.length = passed.length + (taken ++ rest).length := by
      rw [← String.length_toList, h.source_eq, List.length_append]
    exact h.faults_le.trans (hlength ▸ Nat.le_add_right _ _)
  · obtain ⟨before, behind, htext, hplace, -⟩ := h.stands ts hts t ht
    exact ⟨before, behind, htext, hplace⟩

-- a character that begins nothing, a literal that ends with its line, a comment that is not closed, and then nothing
example : (ofSource "a @b \"\\\"\n/*").answers 4 =
    [.error ⟨"Unexpected character: '@'", ⟨1, 3⟩⟩, .error ⟨"Unterminated string literal", ⟨1, 6⟩⟩,
      .error ⟨"Unterminated block comment", ⟨2, 1⟩⟩, .ok []] := by decide +kernel

end Lexer

end LoopForest
