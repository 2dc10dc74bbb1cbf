import LoopForest.Proofs.Forest.Joining
import LoopForest.Proofs.Parser.Lockstep

/-!
# One program behind another

When a scan of some tokens answers, further tokens may be put behind them. The scan then comes to the further tokens with nothing open,
and goes on as if these were all: what it answers or where it stops is the same, and the forest is that of the first tokens joined with
that of the others (`parseProgram_append`). Nothing that a scan of the others looks at depends on the tokens passed before; it only gives
out other numbers, and `Forest.join` says which.

The proof takes the two scans of the further tokens side by side. They are related by `Trails`: the second parser is as far and has the
same choices, and its forest is that of the first one behind another.
-/

namespace LoopForest

namespace Forest

variable {f g : Forest}

/-! ## Loops in a joined forest -/

/-- Numbers that follow each other do so behind another forest. -/
theorem shift_add {id : NodeId} (hid : id ≠ root) (more : Nat) : f.shift (id + more) = f.shift id + more := by
  have hne : id + more ≠ root := Nat.ne_of_gt (Nat.add_pos_left (Nat.pos_of_ne_zero hid) _)
  rw [shift_of_ne hid, shift_of_ne hne]
  exact Nat.add_right_comm _ _ _

section

variable (hf : root < f.size) (hg : root < g.size)

include hf hg

/-- Two nodes are added, of which the second takes over the first. -/
theorem join_withPair {first second : Node} (hfirst : first.fieldIds = []) (hsecond : second.fieldIds = [g.size]) (location : Location) :
    f.join ((g.withNode first location).withNode second location) =
      ((f.join g).withNode (first.renumber f.shift) location).withNode (second.renumber f.shift) location := by
  have hfields : root ∉ first.fieldIds := hfirst ▸ List.not_mem_nil
  have hfields' : root ∉ second.fieldIds := by
    rw [hsecond, List.mem_singleton]
    exact Nat.ne_of_lt hg
  have hg' : root < (g.withNode first location).size := by
    rw [size_withNode]
    exact Nat.lt_succ_of_lt hg
  rw [join_withNode hf hg' hfields', join_withNode hf hg hfields]

theorem join_withInitialization (i : Initialization) : f.join (g.withInitialization i) = (f.join g).withInitialization i := by
  rw [withInitialization, join_withPair hf hg rfl rfl, withInitialization, size_join hf hg]
  rfl

theorem join_withCondition (c : Condition) (place : Location) :
    f.join (g.withCondition c place) = (f.join g).withCondition c place :=
  join_withNode hf hg List.not_mem_nil place

theorem join_withUpdate (u : Update) : f.join (g.withUpdate u) = (f.join g).withUpdate u := by
  rw [withUpdate, join_withPair hf hg rfl rfl, withUpdate, size_join hf hg]
  rfl

theorem join_withClauses (l : Loop) : f.join (g.withClauses l) = (f.join g).withClauses l := by
  have hinit := root_lt_size_withInitialization hg l.initialization
  have hcond := root_lt_size_withCondition hinit l.condition l.place
  rw [withClauses, join_withUpdate hf hcond, join_withCondition hf hinit, join_withInitialization hf hg, withClauses]

/-- Building a loop in the second forest is building it in the joined one. -/
theorem join_withLoop (l : Loop) (body : List Token) (location : Location) :
    f.join (g.withLoop l body location) = (f.join g).withLoop l body location := by
  have hne : g.size ≠ root := Nat.ne_of_gt hg
  have hfields : root ∉ (Node.forLoop (g.size + 1) (g.size + 2) (g.size + 4) body).fieldIds := by
    simp [Node.fieldIds, root]
  have hclauses : root < (g.withClauses l).size := by
    rw [size_withClauses]
    exact Nat.lt_add_right _ hg
  have hnode : (Node.forLoop (g.size + 1) (g.size + 2) (g.size + 4) body).renumber f.shift =
      .forLoop ((f.join g).size + 1) ((f.join g).size + 2) ((f.join g).size + 4) body := by
    rw [Node.renumber, shift_add hne, shift_add hne, shift_add hne, size_join hf hg]
  rw [withLoop, join_withNode hf hclauses hfields, join_withClauses hf hg, hnode, withLoop]

/-- A loop for the root of the second forest is one for the root they share. -/
theorem join_extend (l : Loop) (body : List Token) (location : Location) :
    f.join (g.extend (.rootLoop l body location)) = (f.join g).extend (.rootLoop l body location) := by
  have hne : g.size ≠ root := Nat.ne_of_gt hg
  have hloop : root < (g.withLoop l body location).size := Nat.lt_of_lt_of_le hg (g.keeps_withLoop l body location).size_le
  have hchild : g.size + 5 ≠ root := Nat.succ_ne_zero _
  rw [extend, join_link hf hloop hchild, join_withLoop hf hg, shift_add hne, ← size_join hf hg, extend]

end

end Forest

namespace Parser

/-! ## Scanning behind a forest -/

/-- The second parser is as far as the first one and has the same choices, and its forest is that of the first one behind `f`. -/
structure Trails (f : Forest) (p q : Parser) : Prop where
  options : q.options = p.options
  lookup : q.lookup = p.lookup
  rest : q.cursor.rest = p.cursor.rest
  forest : q.forest = f.join p.forest
  sound : p.Sound
  sound' : q.Sound

namespace Trails

variable {f : Forest} {p q : Parser}

/-- Behind another forest a loop is tried with the same outcome. -/
theorem exists_triedBy (hf : Forest.root < f.size) (h : Trails f p q) {t : Token} {ts : List Token} {answer : Except ParseError Unit}
    {r : Parser} (htried : p.TriedBy t ts (answer, r)) :
    ∃ r', q.TriedBy t ts (answer, r') ∧ (r.Sound → r'.Sound → Trails f r r') := by
  have hcut := h.options
  cases htried with
  | noHeader hheader =>
    rw [← hcut] at hheader
    exact ⟨_, .noHeader hheader, fun hr hr' => ⟨h.options, h.lookup, rfl, h.forest, hr, hr'⟩⟩
  | noBody hheader hbody =>
    rw [← hcut] at hheader hbody
    exact ⟨_, .noBody hheader hbody, fun hr hr' => ⟨h.options, h.lookup, rfl, h.forest, hr, hr'⟩⟩
  | fault hheader hbody hloop =>
    rw [← hcut] at hheader hbody
    rw [← h.lookup] at hloop
    exact ⟨_, .fault hheader hbody hloop, fun hr hr' => ⟨h.options, h.lookup, rfl, h.forest, hr, hr'⟩⟩
  | @loop header body l hheader hbody hloop =>
    rw [← hcut] at hheader hbody
    rw [← h.lookup] at hloop
    have hforest : q.forest.extend (.rootLoop l body.closed t.location) =
        f.join (p.forest.extend (.rootLoop l body.closed t.location)) := by
      rw [h.forest, Forest.join_extend hf h.sound.reached.root_lt_size]
    exact ⟨_, .loop hheader hbody hloop, fun hr hr' => ⟨h.options, h.lookup, rfl, hforest, hr, hr'⟩⟩

/-- Behind another forest a scan makes the same steps and stops at the same place. -/
theorem simulation (hf : Forest.root < f.size) : Simulation Eq Eq (Trails f) where
  sound h := ⟨h.sound, h.sound'⟩
  rest h := by
    rw [h.rest, List.forall₂_eq_eq_eq]
  opens h ht := by
    rw [h.options, ht]
  skip {p q t t' ts ts'} h ht hts := by
    rw [List.forall₂_eq_eq_eq] at hts
    subst ht hts
    exact ⟨h.options, h.lookup, rfl, h.forest, h.sound.skip t ts, h.sound'.skip t ts⟩
  tried {p q t t' ts ts' answer r} h ht hts htried := by
    rw [List.forall₂_eq_eq_eq] at hts
    subst ht hts
    obtain ⟨r', htried', htrails⟩ := h.exists_triedBy hf htried
    exact ⟨answer, r', htried', parallel_eq_iff.mpr rfl, htrails⟩

end Trails

/-- A scan that answers comes to the tokens put behind those it scans, with the forest it leaves there. -/
theorem exists_scans_append {options : Options} {lookup : Lookup} {a : List Token}
    (h : (start options lookup a).parseProgram.1.isOk) (b : List Token) :
    ∃ q, (start options lookup (a ++ b)).Scans q ∧
      Trails (start options lookup a).parseProgram.2.forest (start options lookup b) q := by
  obtain ⟨q, hscan, ⟨hrest, heq⟩ | ⟨e, r, -, heq⟩⟩ := (start options lookup a).exists_scans
  · -- the scan of `a` is made again with `b` behind it, and there it has come to `b` when no token of `a` is left
    have hq : q.Sound := hscan.sound (.start options lookup a)
    have hroot : Forest.root < q.forest.size := hq.reached.root_lt_size
    obtain ⟨taken, htaken, hframe⟩ := hscan.frame
    have ha : a = taken := by
      rw [hrest, List.append_nil] at htaken
      exact htaken
    subst ha
    have hforest : (q.followedBy b).forest = q.forest.join (start options lookup b).forest := (Forest.join_empty hroot).symm
    rw [heq]
    exact ⟨q.followedBy b, hframe b, hscan.options_eq, hscan.lookup_eq, rfl, hforest, .start options lookup b,
      ⟨hq.reached, hq.root_unowned, hq.no_opener⟩⟩
  · rw [heq] at h
    cases h

/-- When a scan of some tokens answers, a scan of these and more comes to the answer or the error that a scan of the others alone comes
to, at the same place. The forest is that of the first tokens with that of the others behind it. -/
theorem parseProgram_append (options : Options) (lookup : Lookup) (a b : List Token)
    (h : (start options lookup a).parseProgram.1.isOk) :
    (start options lookup (a ++ b)).parseProgram.1 = (start options lookup b).parseProgram.1 ∧
      (start options lookup (a ++ b)).parseProgram.2.forest =
        (start options lookup a).parseProgram.2.forest.join (start options lookup b).parseProgram.2.forest := by
  have hroot : Forest.root < (start options lookup a).parseProgram.2.forest.size :=
    (Sound.start options lookup a).parseProgram.reached.root_lt_size
  obtain ⟨q, hscan, htrails⟩ := exists_scans_append h b
  obtain ⟨hanswer, hend⟩ := (Trails.simulation hroot).parseProgram htrails
  rw [hscan.parseProgram_eq]
  exact ⟨(parallel_eq_iff.mp hanswer).symm, hend.forest⟩

/-- The statement at two programs of a loop each, where the second one has another loop behind that, which is not finished. -/
theorem parseProgram_append_unfinished :
    let word (text : String) : Token := ⟨.identifier, text, .start⟩
    let a := ["for", "(", "i", "=", "0", ";", "i", "<", "1", ";", "i++", ")", "\x7b", "\x7d", "x"].map word
    let b := ["for", "(", "int", "j", "=", "0", ";", "j", "<", "2", ";", "j", "+=", "3", ")", "\x7b", "\x7d", "for", "("].map word
    let parse (tokens : List Token) := (start {} .relational tokens).parseProgram
    (parse a).1.isOk ∧ (parse (a ++ b)).1 = (parse b).1 ∧ (parse b).1.isOk = false ∧
      (parse (a ++ b)).2.forest = (parse a).2.forest.join (parse b).2.forest ∧
      (parse a).2.forest.children Forest.root = [6] ∧ (parse b).2.forest.children Forest.root = [6] ∧
      (parse (a ++ b)).2.forest.children Forest.root = [6, 12] ∧
      (parse (a ++ b)).2.forest.node? 12 = some (.forLoop 8 9 11 [word "\x7b", word "\x7d"]) := by
  intro word a b parse
  have hok : (parse a).1.isOk := by decide +kernel
  have hstop : (parse b).1.isOk = false := by decide +kernel
  have ha : (parse a).2.forest.children Forest.root = [6] := by decide +kernel
  have hb : (parse b).2.forest.children Forest.root = [6] := by decide +kernel
  have hchildren : (parse (a ++ b)).2.forest.children Forest.root = [6, 12] := by decide +kernel
  have hnode : (parse (a ++ b)).2.forest.node? 12 = some (.forLoop 8 9 11 [word "\x7b", word "\x7d"]) := by decide +kernel
  obtain ⟨hanswer, hforest⟩ := parseProgram_append {} .relational a b hok
  exact ⟨hok, hanswer, hstop, hforest, ha, hb, hchildren, hnode⟩

end Parser

end LoopForest
