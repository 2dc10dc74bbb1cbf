import LoopForest.Proofs.Parser.Scanning

/-!
# Parsers in use

The user of a parser gives it choices, has it scan the program, and calls the functions that read the parts of a loop on tokens of the
user's own. A call that stops leaves a parser too, and nodes it had added stay where no loop owns them. `Parser.run` makes the calls
of a list one after the other, and `Parser.Reached` says that a parser is what some calls leave of a parser of some tokens. All such
parsers are sound (`Reached.sound`).
-/

namespace LoopForest

namespace Parser

/-- A call of a parser's user. -/
inductive Call where
  | withOptions (options : Options)
  | withLookup (lookup : Lookup)
  | parseProgram
  | parseTarget (tokens : List Token)
  | parseInitialization (tokens : List Token)
  | parseCondition (tokens : List Token)
  | parseUpdate (tokens : List Token)
  | parseLoop (header body : List Token) (location : Location)

/-- The parser a call leaves, whether it answers or stops. -/
def after (p : Parser) : Call → Parser
  | .withOptions options => p.withOptions options
  | .withLookup lookup => p.withLookup lookup
  | .parseProgram => p.parseProgram.2
  | .parseTarget tokens => (Parser.parseTarget tokens p).2
  | .parseInitialization tokens => (Parser.parseInitialization tokens p).2
  | .parseCondition tokens => (Parser.parseCondition tokens p).2
  | .parseUpdate tokens => (Parser.parseUpdate tokens p).2
  | .parseLoop header body location => (Parser.parseLoop header body location p).2

/-- The parser some calls leave, made one after the other. -/
def run (p : Parser) (calls : List Call) : Parser := calls.foldl after p

/-- A parser before the first of some tokens, with these choices. -/
def start (options : Options) (lookup : Lookup) (tokens : List Token) : Parser :=
  ((ofTokens tokens).withOptions options).withLookup lookup

/-- The parser is what some calls make of a parser before the first of some tokens. -/
def Reached (p : Parser) : Prop := ∃ tokens calls, p = (ofTokens tokens).run calls

/-- What holds of every parser before its first token and is kept by every call holds of every parser that calls leave. -/
theorem Reached.induction {P : Parser → Prop} (base : ∀ tokens, P (ofTokens tokens)) (step : ∀ p call, P p → P (p.after call))
    {p : Parser} (h : p.Reached) : P p := by
  obtain ⟨tokens, calls, rfl⟩ := h
  have key : ∀ p, P p → P (p.run calls) := by
    induction calls with
    | nil => intro p hp; exact hp
    | cons call calls ih => intro p hp; exact ih _ (step p call hp)
  exact key _ (base tokens)

/-! ## Soundness -/

theorem Sound.ofTokens (tokens : List Token) : (ofTokens tokens).Sound := ⟨⟨[], rfl⟩, rfl, rfl⟩

/-- A scan keeps a parser sound, wherever it ends. -/
theorem Sound.parseProgram {p : Parser} (hp : p.Sound) : p.parseProgram.2.Sound := by
  obtain ⟨q, hscan, ⟨-, heq⟩ | ⟨e, r, hstop, heq⟩⟩ := p.exists_scans
  · rw [heq]
    exact hscan.sound hp
  · rw [heq]
    exact hstop.sound (hscan.sound hp)

theorem Sound.after {p : Parser} (hp : p.Sound) (call : Call) : (p.after call).Sound := by
  cases call with
  | withOptions options => exact ⟨hp.reached, hp.root_unowned, hp.no_opener⟩
  | withLookup lookup => exact ⟨hp.reached, hp.root_unowned, hp.no_opener⟩
  | parseProgram => exact hp.parseProgram
  | parseTarget tokens => exact hp.leads ((reads_parseTarget tokens).leads p)
  | parseInitialization tokens => exact hp.leads ((reads_parseInitialization tokens).leads p)
  | parseCondition tokens => exact hp.leads ((reads_parseCondition tokens).leads p)
  | parseUpdate tokens => exact hp.leads ((reads_parseUpdate tokens).leads p)
  | parseLoop header body location => exact hp.leads ((reads_parseLoop header body location).leads p)

theorem Sound.start (options : Options) (lookup : Lookup) (tokens : List Token) : (start options lookup tokens).Sound :=
  ((Sound.ofTokens tokens).after (.withOptions options)).after (.withLookup lookup)

/-- Whatever its user does, a parser is sound. -/
theorem Reached.sound {p : Parser} (h : p.Reached) : p.Sound :=
  h.induction Sound.ofTokens fun _ call hp => hp.after call

end Parser

end LoopForest
