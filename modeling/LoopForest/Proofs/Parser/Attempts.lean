import LoopForest.Proofs.Parser.Additions
import LoopForest.Proofs.Parser.Constructs

/-!
# What comes of a keyword

Behind a keyword there are four ways to go. The header does not end, or the body does not: then all tokens are passed. Both end, but the
header is not that of a loop: then the parser stands behind the body, and nothing is added. Or there is a loop, and the root takes it.
`TriedBy` gives for each way the answer and the whole parser that is left, and `addLoop_eq_iff` says that in a sound parser trying to add
the loop comes to just that. So whoever follows a scan goes by these four cases and opens no action again.
-/

namespace LoopForest

namespace Parser

/-- The parser behind a construct that is cut out, when `t` is its keyword and `ts` are the tokens behind that. -/
def past (p : Parser) (t : Token) (ts : List Token) (header body : Enclosure.Cut) : Parser :=
  (p.skip t ts).behind t.location header body

/-- The parser behind all tokens, when the construct that `t` opens does not end in the tokens `ts` behind it. -/
def exhausted (p : Parser) (t : Token) (ts : List Token) : Parser :=
  ((p.skip t ts).noting (.found t.location)).withCursor (p.skip t ts).cursor.toEnd

/-- The parser behind a construct that is a loop, once the root has taken it. -/
def extended (p : Parser) (t : Token) (ts : List Token) (header body : Enclosure.Cut) (l : Loop) : Parser :=
  ((p.past t ts header body).withForest (p.forest.extend (.rootLoop l body.closed t.location))).noting (.parsed (p.forest.size + 5))

/-- The ways to go behind the keyword `t` with the tokens `ts` behind it, each with what calls for it. -/
inductive TriedBy (p : Parser) (t : Token) (ts : List Token) : Except ParseError Unit × Parser → Prop where
  | noHeader (hheader : Enclosure.header.cut? p.options.matching 0 ts = none) :
    TriedBy p t ts (.error (.unterminated .header (ts.getLast?.getD t).location), p.exhausted t ts)
  | noBody {header : Enclosure.Cut} (hheader : Enclosure.header.cut? p.options.matching 0 ts = some header)
    (hbody : Enclosure.body.cut? p.options.matching 0 header.rest = none) :
    TriedBy p t ts (.error (.unterminated .body (ts.getLast?.getD t).location), p.exhausted t ts)
  | fault {header body : Enclosure.Cut} {fault : LoopFault} (hheader : Enclosure.header.cut? p.options.matching 0 ts = some header)
    (hbody : Enclosure.body.cut? p.options.matching 0 header.rest = some body)
    (hloop : Loop.ofHeader p.lookup header.inner = .error fault) :
    TriedBy p t ts (.error (fault.error t.location), p.past t ts header body)
  | loop {header body : Enclosure.Cut} {l : Loop} (hheader : Enclosure.header.cut? p.options.matching 0 ts = some header)
    (hbody : Enclosure.body.cut? p.options.matching 0 header.rest = some body)
    (hloop : Loop.ofHeader p.lookup header.inner = .ok l) : TriedBy p t ts (.ok (), p.extended t ts header body l)

section

variable {p : Parser} {t : Token} {ts : List Token}

/-- What a way to go leaves is what trying to add the loop leaves. -/
theorem TriedBy.addLoop_eq {r : Except ParseError Unit × Parser} (hp : p.Sound) (h : p.TriedBy t ts r) :
    addLoop t.location (p.skip t ts) = r := by
  have hskip := hp.skip t ts
  have hroot := hp.reached.root_lt_size
  have hlookup : (p.skip t ts).lookup = p.lookup := rfl
  have hlast : (p.skip t ts).cursor.toEnd.lastLocation = (ts.getLast?.getD t).location := Cursor.lastLocation_toEnd rfl
  cases h with
  | noHeader hheader =>
    have hread := parseConstruct_of_no_header (p := p.skip t ts) t.location hheader
    rw [hlast] at hread
    exact addLoop_of_error hskip hread
  | noBody hheader hbody =>
    have hread := parseConstruct_of_no_body (p := p.skip t ts) t.location hheader hbody
    rw [hlast] at hread
    exact addLoop_of_error hskip hread
  | fault hheader hbody hloop =>
    have hread := parseConstruct_of_cut (p := p.skip t ts) hroot hp.no_opener t.location hheader hbody
    rw [hlookup, hloop] at hread
    exact addLoop_of_error hskip hread
  | loop hheader hbody hloop =>
    have hread := parseConstruct_of_cut (p := p.skip t ts) hroot hp.no_opener t.location hheader hbody
    rw [hlookup, hloop] at hread
    have hadd := addLoop_of_ok hskip hread
    rw [hadd]
    rfl

/-- There is always a way to go. -/
theorem exists_triedBy (p : Parser) (t : Token) (ts : List Token) : ∃ r, p.TriedBy t ts r := by
  cases hheader : Enclosure.header.cut? p.options.matching 0 ts with
  | none => exact ⟨_, .noHeader hheader⟩
  | some header =>
    cases hbody : Enclosure.body.cut? p.options.matching 0 header.rest with
    | none => exact ⟨_, .noBody hheader hbody⟩
    | some body =>
      cases hloop : Loop.ofHeader p.lookup header.inner with
      | error fault => exact ⟨_, .fault hheader hbody hloop⟩
      | ok l => exact ⟨_, .loop hheader hbody hloop⟩

/-- In a sound parser, trying to add the loop behind a keyword comes to what the way to go leaves, and to nothing else. -/
theorem addLoop_eq_iff {r : Except ParseError Unit × Parser} (hp : p.Sound) :
    addLoop t.location (p.skip t ts) = r ↔ p.TriedBy t ts r := by
  refine ⟨fun h => ?_, fun h => h.addLoop_eq hp⟩
  obtain ⟨r', htried⟩ := exists_triedBy p t ts
  obtain rfl := (htried.addLoop_eq hp).symm.trans h
  exact htried

end

end Parser

end LoopForest
