import M5.Base.Str
import Mathlib.Logic.Function.Basic

/-!
# Ini files

`IniFile` of `base/inifile.cc`. A table is a function; the pointer to the current section is the section's name.
-/

namespace M5.Base

open Function List Option

abbrev Section := Text → Option Text

abbrev IniFile := Text → Option Section

/-! ## The functions -/

def Section.addEntry (s : Section) (entryName value : Text) (append : Bool) : Section :=
  match s entryName with
  | none => update s entryName (some value)
  | some v =>
    if append then update s entryName (some (v ++ ' ' :: value))
    else update s entryName (some value)

def beforeEq (s : Text) : Text := s.takeWhile (· != '=')

def afterEq (s : Text) : Text := (s.dropWhile (· != '=')).tail

/-- `Section::add`. With nothing before the `=` the source reads a character outside the text; it is taken not to be a
`+`. -/
def Section.add (s : Section) (assignment : Text) : Option Section :=
  if '=' ∈ assignment then
    let append := (beforeEq assignment).getLast? == some '+'
    let entryName := if append then (beforeEq assignment).dropLast else beforeEq assignment
    some (s.addEntry (eatWhite entryName) (eatWhite (afterEq assignment)) append)
  else none

namespace IniFile

variable (db : IniFile) (sectionName : Text)

/-- `findSection`, with no entries in a section that does not exist. -/
def entries : Section := (db sectionName).getD fun _ => none

def addSection : IniFile :=
  match db sectionName with
  | some _ => db
  | none => update db sectionName (some fun _ => none)

def find (entryName : Text) : Option Text := (db sectionName).bind fun s => s entryName

end IniFile

structure Reader where
  db : IniFile := fun _ => none
  cur : Option Text := none

def Reader.line (f : Reader) (l : Text) : Option Reader :=
  let l := eatEndWhite l
  if l.head? = some '[' ∧ l.getLast? = some ']' then
    let sectionName := eatWhite l.dropLast.tail
    some { db := f.db.addSection sectionName, cur := some sectionName }
  else
    match f.cur with
    | none => some f
    | some sectionName => do
      let s ← (f.db.entries sectionName).add l
      some { f with db := update f.db sectionName (some s) }

def isSpace (c : Char) : Bool :=
  c = ' ' || c = '\t' || c = '\n' || c = '\r' || c.toNat = 11 || c.toNat = 12

/-- The lines that `load` gets: `f >> ws` skips all white space before each, and `getline` reads on to the end of the
line. -/
def linesFrom : Option Text → Text → List Text
  | none, [] => []
  | some l, [] => [l]
  | none, c :: s => if isSpace c then linesFrom none s else linesFrom (some [c]) s
  | some l, c :: s => if c = '\n' then l :: linesFrom none s else linesFrom (some (l ++ [c])) s

def lines (s : Text) : List Text := linesFrom none s

def IniFile.load (s : Text) : Option IniFile := ((lines s).foldlM Reader.line {}).map Reader.db

/-! ## Lines -/

theorem linesFrom_append (b : Text) : ∀ (o : Option Text) (a : Text),
    linesFrom o (a ++ '\n' :: b) = linesFrom o a ++ lines b
  | none, [] => rfl
  | some l, [] => rfl
  | none, c :: a => by
    rw [cons_append, linesFrom, linesFrom]
    split
    · exact linesFrom_append b none a
    · exact linesFrom_append b (some [c]) a
  | some l, c :: a => by
    rw [cons_append, linesFrom, linesFrom]
    split
    · rw [linesFrom_append b none a, cons_append]
    · exact linesFrom_append b _ a

theorem linesFrom_newline (o : Option Text) (s : Text) : linesFrom o (s ++ ['\n']) = linesFrom o s := by
  rw [linesFrom_append]
  exact append_nil _

theorem lines_append {a : Text} (h : a.getLast? = some '\n') (b : Text) : lines (a ++ b) = lines a ++ lines b := by
  obtain ⟨a, rfl⟩ := getLast?_eq_some_iff.1 h
  rw [append_assoc, lines, lines, linesFrom_newline]
  exact linesFrom_append b none a

theorem linesFrom_some_append (t : Text) : ∀ {l s : Text}, '\n' ∉ s →
    linesFrom (some l) (s ++ t) = linesFrom (some (l ++ s)) t
  | l, [], _ => by simp
  | l, c :: s, h => by
    rw [cons_append, linesFrom, if_neg fun (hc : c = '\n') => h (hc ▸ mem_cons_self),
      linesFrom_some_append t fun hs => h (mem_cons_of_mem _ hs), append_assoc, singleton_append]

theorem lines_start {c : Char} {s : Text} (hc : isSpace c = false) (hs : '\n' ∉ s) (t : Text) :
    lines (c :: s ++ t) = linesFrom (some (c :: s)) t := by
  rw [lines, cons_append, linesFrom, hc, if_neg nofun, linesFrom_some_append t hs,
    singleton_append]

theorem lines_line {c : Char} {s : Text} (hc : isSpace c = false) (hs : '\n' ∉ s) :
    lines (c :: s ++ ['\n']) = [c :: s] := lines_start hc hs ['\n']

mutual

theorem linesFrom_some : ∀ (s w : Text), ∃ r ls, linesFrom (some w) s = (w ++ r) :: ls ∧ r <+: s ∧ ∀ l ∈ ls, l <:+: s
  | [], w => ⟨[], [], by rw [append_nil]; rfl, prefix_rfl, nofun⟩
  | c :: s, w => by
    rw [linesFrom]
    split
    · refine ⟨[], _, by rw [append_nil], nil_prefix, fun l hl => ?_⟩
      exact (part_of_mem_lines hl).trans (suffix_cons c s).isInfix
    · obtain ⟨r, ls, hl, hr, hls⟩ := linesFrom_some s (w ++ [c])
      refine ⟨c :: r, ls, ?_, (prefix_append_right_inj [c]).2 hr, fun l h => ?_⟩
      · rw [hl, append_assoc, singleton_append]
      · exact (hls l h).trans (suffix_cons c s).isInfix

theorem part_of_mem_lines : ∀ {s l : Text}, l ∈ linesFrom none s → l <:+: s
  | [], _, h => by cases h
  | c :: s, l, h => by
    rw [linesFrom] at h
    split at h
    · exact (part_of_mem_lines h).trans (suffix_cons c s).isInfix
    · obtain ⟨r, ls, hl, hr, hls⟩ := linesFrom_some s [c]
      rw [hl] at h
      rcases mem_cons.1 h with rfl | h
      · exact ((prefix_append_right_inj [c]).2 hr).isInfix
      · exact (hls l h).trans (suffix_cons c s).isInfix

end

/-! ## Tables -/

namespace IniFile

def set (db : IniFile) (sectionName entryName value : Text) : IniFile :=
  update db sectionName (some (update (db.entries sectionName) entryName (some value)))

variable {db : IniFile} {sec e value : Text}

theorem find_eq : db.find sec e = db.entries sec e := by
  unfold find entries
  cases db sec <;> rfl

@[simp] theorem find_addSection (n : Text) : (db.addSection n).find sec e = db.find sec e := by
  unfold addSection
  split
  · rfl
  · next h =>
    unfold find
    by_cases hs : sec = n
    · subst hs
      simp [h]
    · simp [hs]

@[simp] theorem find_set_self : (db.set sec e value).find sec e = some value := by simp [set, find]

theorem find_set_of_ne {sec' e' : Text} (h : sec' ≠ sec ∨ e' ≠ e) :
    (db.set sec e value).find sec' e' = db.find sec' e' := by
  by_cases hs : sec' = sec
  · subst hs
    have he : e' ≠ e := h.resolve_left fun h => h rfl
    have hfind : db.find sec' e' = db.entries sec' e' := find_eq
    rw [hfind]
    simp [set, find, he]
  · simp [set, find, hs]

end IniFile

/-! ## Written lines -/

/-- A name that stands in brackets on a line of its own. -/
structure SectionName where
  text : Text
  newline : '\n' ∉ text
  trimmed : eatWhite text = text

/-- A name that stands before a `=`. -/
structure EntryName where
  text : Text
  start : ∃ c s, text = c :: s ∧ isSpace c = false ∧ c ≠ '['
  newline : '\n' ∉ text
  equals : '=' ∉ text
  blank : text.getLast? ≠ some ' '
  plus : text.getLast? ≠ some '+'

theorem beforeEq_append {a b : Text} (h : '=' ∉ a) : beforeEq (a ++ '=' :: b) = a := by
  have ha : ∀ c ∈ a, (c != '=') := fun c hc => bne_iff_ne.2 fun he => h (he ▸ hc)
  simp [beforeEq, takeWhile_append_of_pos ha]

theorem afterEq_append {a b : Text} (h : '=' ∉ a) : afterEq (a ++ '=' :: b) = b := by
  have ha : ∀ c ∈ a, (c != '=') := fun c hc => bne_iff_ne.2 fun he => h (he ▸ hc)
  simp [afterEq, dropWhile_append_of_pos ha]

def valueOf (r : Text) : Text := eatWhite (r.rdropWhile (· == ' '))

theorem valueOf_part (r : Text) : valueOf r <:+: r :=
  (eatWhite_part _).trans (List.rdropWhile_prefix _ _).isInfix

theorem valueOf_eq {r : Text} (h1 : r.head? ≠ some ' ') (h2 : r.getLast? ≠ some ' ') : valueOf r = r := by
  have hr : r.rdropWhile (· == ' ') = r := by
    rw [rdropWhile_eq_self_iff]
    intro hr hb
    apply h2
    rw [getLast?_eq_getLast_of_ne_nil hr, beq_iff_eq.1 hb]
  rw [valueOf, hr, eatWhite_eq h1 h2]

theorem eatEndWhite_assign (a r : Text) : eatEndWhite (a ++ '=' :: r) = a ++ '=' :: r.rdropWhile (· == ' ') := by
  have hall : ¬ (a ++ '=' :: r).all (· == ' ') := by simp
  rw [eatEndWhite, if_neg hall]
  induction r using reverseRecOn with
  | nil => simp
  | append_singleton r c ih =>
    rw [← cons_append, ← append_assoc, rdropWhile_concat, rdropWhile_concat]
    split
    · apply ih
      simp
    · simp

namespace EntryName

variable (name : EntryName)

theorem head_ne_blank : name.text.head? ≠ some ' ' := by
  obtain ⟨c, s, h, hc, -⟩ := name.start
  rw [h]
  rintro ⟨⟩
  cases hc

theorem head_append (t : Text) : (name.text ++ t).head? ≠ some '[' := by
  obtain ⟨c, s, h, -, hc⟩ := name.start
  rw [h]
  intro he
  exact hc (some.inj he)

end EntryName

namespace Reader

variable (f : Reader)

/-- What is read of a line that was written for a section. -/
theorem line_header (n : SectionName) :
    f.line ('[' :: n.text ++ [']']) = some { db := f.db.addSection n.text, cur := some n.text } := by
  have hlast : ('[' :: n.text ++ [']']).getLast? = some ']' := getLast?_concat
  have hend : eatEndWhite ('[' :: n.text ++ [']']) = '[' :: n.text ++ [']'] := eatEndWhite_eq (by rw [hlast]; decide)
  unfold line
  simp only [hend]
  rw [if_pos ⟨rfl, hlast⟩, dropLast_concat, tail_cons, n.trimmed]

/-- An entry of the current section is set. -/
def assign (f : Reader) (e value : Text) : Reader :=
  match f.cur with
  | none => f
  | some sec => { f with db := f.db.set sec e value }

@[simp] theorem cur_assign (e value : Text) : (f.assign e value).cur = f.cur := by
  unfold assign
  split <;> rfl

theorem find_assign {sec : Text} (hcur : f.cur = some sec) (e value : Text) :
    (f.assign e value).db.find sec e = some value := by
  simp [assign, hcur]

theorem find_assign_of_ne {sec e : Text} (e' value : Text) (h : f.cur = some sec → e ≠ e') :
    (f.assign e' value).db.find sec e = f.db.find sec e := by
  unfold assign
  split
  · rfl
  · next sec' hcur =>
    apply IniFile.find_set_of_ne
    by_cases hs : sec = sec'
    · exact .inr (h (hs ▸ hcur))
    · exact .inl hs

/-- What is read of a line that was written for an entry. -/
theorem line_assign (name : EntryName) (r : Text) :
    f.line (name.text ++ '=' :: r) = some (f.assign name.text (valueOf r)) := by
  have hplus : ((name.text.getLast? == some '+') : Bool) = false := beq_false_of_ne name.plus
  obtain ⟨db, cur⟩ := f
  unfold line
  simp only [eatEndWhite_assign]
  rw [if_neg fun h => name.head_append _ h.1]
  cases cur with
  | none => rfl
  | some sec =>
    simp only [Section.add, beforeEq_append name.equals, afterEq_append name.equals, hplus]
    rw [if_pos (by simp)]
    simp only [Bool.false_eq_true, if_false, Section.addEntry, eatWhite_eq name.head_ne_blank name.blank]
    cases db.entries sec name.text <;> rfl

end Reader

/-! ## Lines of single characters -/

theorem afterEq_cons (c : Char) (s : Text) : afterEq (c :: s) = if c = '=' then s else afterEq s := by
  by_cases h : c = '=' <;> simp [afterEq, h]

theorem afterEq_end : ∀ s : Text, afterEq s <:+ s
  | [] => suffix_rfl
  | c :: s => by
    rw [afterEq_cons]
    split
    · exact suffix_cons c s
    · exact (afterEq_end s).trans (suffix_cons c s)

theorem afterEq_mono : ∀ {s t : Text}, s <+: t → afterEq s <+: afterEq t
  | [], _, _ => nil_prefix
  | c :: s, t, h => by
    obtain ⟨u, rfl⟩ := h
    rw [cons_append, afterEq_cons, afterEq_cons]
    split
    · exact prefix_append s u
    · exact afterEq_mono (prefix_append s u)

/-- All that is found for the entry is spaced. -/
def Reader.SpacedAt (f : Reader) (sec e : Text) : Prop := ∀ v, f.db.find sec e = some v → Spaced v

theorem Section.spaced_addEntry {s : Section} {e n v : Text} {append : Bool} (h : ∀ w, s e = some w → Spaced w)
    (hv : Spaced v) : ∀ w, s.addEntry n v append e = some w → Spaced w := by
  intro w
  unfold addEntry
  by_cases hn : e = n
  · subst hn
    cases hold : s e with
    | none =>
      simp only [update_self, some.injEq]
      rintro rfl
      exact hv
    | some u =>
      split
      all_goals
        simp only [update_self, some.injEq]
        rintro rfl
      · exact (h u hold).append hv
      · exact hv
  · cases s n with
    | none => simpa [hn] using h w
    | some u =>
      split <;> simpa [hn] using h w

theorem Section.spaced_add {s s' : Section} {e l : Text} (h : ∀ v, s e = some v → Spaced v) (hl : Spaced (afterEq l))
    (hs : s.add l = some s') : ∀ v, s' e = some v → Spaced v := by
  unfold add at hs
  split at hs
  case isFalse => cases hs
  case isTrue =>
    obtain rfl := some.inj hs
    exact spaced_addEntry h (hl.part (eatWhite_part _))

/-- Lines of single characters bring values of single characters only. -/
theorem Reader.SpacedAt.line {f f' : Reader} {sec e l : Text} (h : f.SpacedAt sec e) (hl : Spaced (afterEq l))
    (hf : f.line l = some f') : f'.SpacedAt sec e := by
  have hl := hl.part (afterEq_mono (eatEndWhite_start l)).isInfix
  unfold Reader.line at hf
  dsimp only at hf
  split at hf
  · obtain rfl := some.inj hf
    intro v hv
    rw [IniFile.find_addSection] at hv
    exact h v hv
  · cases hc : f.cur with
    | none =>
      rw [hc] at hf
      obtain rfl := some.inj hf
      exact h
    | some n =>
      rw [hc] at hf
      obtain ⟨s, hs, hf⟩ := bind_eq_some_iff.1 hf
      obtain rfl := some.inj hf
      intro v hv
      by_cases hn : sec = n
      · subst hn
        refine Section.spaced_add (fun v hv => h v ?_) hl hs v (by simpa [IniFile.find] using hv)
        rwa [IniFile.find_eq]
      · exact h v (by simpa [IniFile.find, hn] using hv)

end M5.Base
