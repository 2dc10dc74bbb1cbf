import LoopForest.Proofs.Forest.Lineage
import LoopForest.Proofs.Parser.Building

/-!
# Adding a loop

A scan adds the loop behind a keyword, or it stops there. `addLoop_eq_ok` and `addLoop_eq_error` say what the two leave, and
`addLoop_frame` that a loop is added without a look at the tokens behind it.

A loop that stops the scan leaves nothing behind in a parser whose forest is one that calls build, in which nothing owns the root,
and which reads no clause (`Parser.Sound`). In such a parser a loop that was read is new, so that the root never refuses it; and a
loop that cannot be read has only added nodes, so that forgetting these gives back the forest there was.
-/

namespace LoopForest

namespace Parser

open Action

/-- The forest is one that calls build, in which nothing owns the root, and no clause is being read. -/
structure Sound (p : Parser) : Prop where
  reached : p.forest.Reached
  root_unowned : p.forest.parent? Forest.root = none
  no_opener : p.clauseOpener = none

/-- Reading keeps a parser sound. -/
theorem Sound.leads {p q : Parser} (hp : p.Sound) (h : p.Leads q) : q.Sound := by
  refine ⟨h.grown.reached hp.reached, h.grown.parent?_root.trans hp.root_unowned, ?_⟩
  rcases h.opener with heq | hnone
  · exact heq.trans hp.no_opener
  · exact hnone

/-! ## The loop that was read -/

/-- A node is answered that nothing owns and that the parser before did not hold. -/
def Fresh (p q : Parser) (id : NodeId) : Prop := p.forest.size ≤ id ∧ id < q.forest.size ∧ q.forest.parent? id = none

theorem parseConstruct_fresh {keyword : Location} {p q : Parser} {loop : NodeId} (hp : p.Sound)
    (h : parseConstruct keyword p = (.ok loop, q)) : p.Fresh q loop := by
  have hroot := hp.reached.root_lt_size
  obtain ⟨header, body, l, -, -, -, rfl, rfl⟩ := parseConstruct_eq_ok hroot hp.no_opener h
  refine ⟨Nat.le_add_right _ _, ?_, Forest.parent?_withLoop_new hroot l body.closed keyword⟩
  change p.forest.size + 5 < (p.forest.withLoop l body.closed keyword).size
  rw [Forest.size_withLoop]
  exact Nat.lt_succ_self _

/-- A node that a parser with a sound forest did not hold before can be attached to the root. -/
theorem attach_eq_ok {p q : Parser} {loop : NodeId} (hp : p.Sound) (hq : q.Sound) (h : p.Fresh q loop) :
    attach loop q = (.ok (), { q with forest := q.forest.link Forest.root loop }) := by
  obtain ⟨hle, hlt, hun⟩ := h
  have hroot := hq.reached.root_lt_size
  have habove : q.forest.ancestors Forest.root = [Forest.root] :=
    (Forest.Lineage.top hq.root_unowned).ancestors_eq hq.reached.linked hroot
  have hne : loop ≠ Forest.root := Nat.ne_of_gt (Nat.lt_of_lt_of_le hp.reached.root_lt_size hle)
  have hlink := Forest.addChild_eq_ok_iff.mpr ⟨hroot, hlt, hun, by rw [habove]; simpa using hne, rfl⟩
  unfold attach
  rw [hlink]

/-! ## The loop behind a keyword -/

/-- A loop that was added was read, and the root accepted it. -/
theorem addLoop_eq_ok {keyword : Location} {p r : Parser} (h : addLoop keyword p = (.ok (), r)) :
    ∃ loop q forest, parseConstruct keyword p = (.ok loop, q) ∧ q.forest.addChild Forest.root loop = .ok forest ∧
      r = { q with forest := forest } := by
  unfold addLoop at h
  rcases hc : parseConstruct keyword p with ⟨e | loop, q⟩
  · simp only [hc] at h
    cases h
  · simp only [hc, attach] at h
    cases hadd : q.forest.addChild Forest.root loop with
    | error e =>
      simp only [hadd] at h
      cases h
    | ok forest =>
      simp only [hadd] at h
      obtain ⟨-, rfl⟩ := Prod.mk.inj h
      exact ⟨loop, q, forest, rfl, hadd, rfl⟩

/-- A loop that is read is added: the root takes it. -/
theorem addLoop_of_ok {keyword : Location} {p q : Parser} {loop : NodeId} (hp : p.Sound)
    (hread : parseConstruct keyword p = (.ok loop, q)) :
    addLoop keyword p = (.ok (), q.withForest (q.forest.link Forest.root loop)) := by
  have hlead := (reads_parseConstruct keyword).leads_of_eq hread
  have hattach := attach_eq_ok hp (hp.leads hlead) (parseConstruct_fresh hp hread)
  simp only [addLoop, hread, hattach]
  rfl

/-- A loop that is not read is not added. The nodes of its clauses are forgotten again, and the forest is the one there was. -/
theorem addLoop_of_error {keyword : Location} {p q : Parser} {e : ParseError} (hp : p.Sound)
    (hread : parseConstruct keyword p = (.error e, q)) : addLoop keyword p = (.error e, q.withForest p.forest) := by
  have hlead := (reads_parseConstruct keyword).leads_of_eq hread
  have hundo := hlead.grown.undo hp.reached.linked hp.reached.root_lt_size
  simp only [addLoop, hread, hundo]
  rfl

/-- A loop that was not added was not read: the root refuses none. -/
theorem addLoop_eq_error {keyword : Location} {p r : Parser} {e : ParseError} (hp : p.Sound)
    (h : addLoop keyword p = (.error e, r)) :
    ∃ q, parseConstruct keyword p = (.error e, q) ∧ r = { q with forest := p.forest } := by
  rcases hc : parseConstruct keyword p with ⟨e' | loop, q⟩
  · rw [addLoop_of_error hp hc] at h
    obtain ⟨he, rfl⟩ := Prod.mk.inj h
    obtain rfl := Except.error.inj he
    exact ⟨q, rfl, rfl⟩
  · rw [addLoop_of_ok hp hc] at h
    cases h

/-- A loop is added in the same way whatever tokens stand behind it. -/
theorem addLoop_frame {keyword : Location} {p r : Parser} (h : addLoop keyword p = (.ok (), r)) :
    ∃ taken, p.cursor.rest = taken ++ r.cursor.rest ∧
      ∀ rest, addLoop keyword (p.followedBy (taken ++ rest)) = (.ok (), r.followedBy rest) := by
  obtain ⟨loop, q, forest, hc, hadd, rfl⟩ := addLoop_eq_ok h
  obtain ⟨taken, htaken, hframe⟩ := (reads_parseConstruct keyword).frame hc
  refine ⟨taken, htaken, fun rest => ?_⟩
  have hadd' : (q.followedBy rest).forest.addChild Forest.root loop = .ok forest := hadd
  simp only [addLoop, hframe rest, attach, hadd']
  rfl

/-- Adding a loop changes nothing about how a parser reads. -/
theorem addLoop_choices {keyword : Location} {p r : Parser} (h : addLoop keyword p = (.ok (), r)) :
    r.options = p.options ∧ r.lookup = p.lookup := by
  obtain ⟨loop, q, forest, hc, -, rfl⟩ := addLoop_eq_ok h
  have hlead := (reads_parseConstruct keyword).leads_of_eq hc
  exact ⟨hlead.options, hlead.lookup⟩

/-- Adding a loop keeps a parser sound: the root takes a child and is taken by none. -/
theorem Sound.addLoop {keyword : Location} {p r : Parser} (hp : p.Sound) (h : addLoop keyword p = (.ok (), r)) : r.Sound := by
  obtain ⟨loop, q, forest, hc, hadd, rfl⟩ := addLoop_eq_ok h
  have hq := hp.leads ((reads_parseConstruct keyword).leads_of_eq hc)
  obtain ⟨-, hlt, -, habove, rfl⟩ := Forest.addChild_eq_ok_iff.mp hadd
  refine ⟨?_, ?_, hq.no_opener⟩
  · have hrun : q.forest.run [.addChild Forest.root loop] = q.forest.link Forest.root loop := by
      simp only [Forest.run_cons, Forest.run_nil, Forest.after, hadd]
    rw [← hrun]
    exact hq.reached.run _
  · have hroot := (Forest.Lineage.top hq.root_unowned).ancestors_eq hq.reached.linked hq.reached.root_lt_size
    have hne : Forest.root ≠ loop := by
      rintro rfl
      rw [hroot] at habove
      exact habove List.mem_cons_self
    change (q.forest.link Forest.root loop).parent? Forest.root = none
    rw [Forest.parent?_link hlt, if_neg hne]
    exact hq.root_unowned

theorem Sound.skip {p : Parser} (hp : p.Sound) (t : Token) (rest : List Token) : (p.skip t rest).Sound :=
  ⟨hp.reached, hp.root_unowned, hp.no_opener⟩

end Parser

end LoopForest
