import M5.Base.IniFile

/-!
# Checkpoint parameters

`paramOut`, `paramIn` and their forms for arrays and vectors in `sim/serialize.cc`. A checkpoint is a file of sections,
each with its parameters; it is read by `IniFile::load`. A fatal error is `none`.
-/

namespace M5.Sim

open M5.Base List Option

/-! ## The functions -/

inductive ParamType
  | int (T : IntType)
  | bool
deriving DecidableEq

abbrev ParamType.Value : ParamType → Type
  | int T => T.Value
  | bool => Bool

instance : ∀ t : ParamType, DecidableEq t.Value
  | .int _ => inferInstance
  | .bool => inferInstance

/-- A `signed char` is written as a character, since only `char` and `unsigned char` are specialised. -/
def showParam : (t : ParamType) → t.Value → Text
  | .int T, v => if T = .signedChar then [.ofNat (v.val % 256).toNat] else showInt v.val
  | .bool, v => if v then "true".toList else "false".toList

def parseParam : (t : ParamType) → Text → Option t.Value
  | .int T, s => T.toNumber s
  | .bool, s =>
    if toLower s = "true".toList then some true
    else if toLower s = "false".toList then some false
    else none

/-- The loop of `arrayParamIn`. -/
def parseParams (t : ParamType) : List Text → Option (List t.Value)
  | [] => some []
  | s :: ss => do
    let v ← parseParam t s
    let vs ← parseParams t ss
    some (v :: vs)

section paramIn

variable (db : IniFile) (sec name : Text) (t : ParamType)

def paramIn : Option t.Value := do
  let str ← db.find sec name
  parseParam t str

/-- `arrayParamIn` for an array of `size` elements. -/
def arrayParamIn (size : Nat) : Option (List t.Value) := do
  let str ← db.find sec name
  let tokens := tokenize str ' ' true
  if tokens.length ≠ size then none else parseParams t tokens

/-- `arrayParamIn` for a vector. -/
def vectorParamIn : Option (List t.Value) := do
  let str ← db.find sec name
  parseParams t (tokenize str ' ' true)

end paramIn

/-- What is written and read under one name. -/
inductive Param
  | scalar (t : ParamType) (v : t.Value)
  | array (t : ParamType) (l : List t.Value)
  | vector (t : ParamType) (l : List t.Value)

namespace Param

def type : Param → ParamType
  | scalar t _ | array t _ | vector t _ => t

def values : (p : Param) → List p.type.Value
  | scalar _ v => [v]
  | array _ l | vector _ l => l

/-- What `paramOut` and `arrayParamOut` write behind the `=`. -/
def text : Param → Text
  | scalar t v => showParam t v
  | array t l | vector t l => joinWords ' ' (l.map (showParam t))

end Param

inductive Write
  | nameOut (n : SectionName)
  | paramOut (name : EntryName) (p : Param)

def Write.text : Write → Text
  | nameOut n => '\n' :: '[' :: n.text ++ [']', '\n']
  | paramOut name p => name.text ++ '=' :: p.text ++ ['\n']

/-- The file that `Serializable::serializeAll` writes. -/
def checkpoint (time : Text) (ws : List Write) : Text :=
  '#' :: '#' :: " checkpoint generated: ".toList ++ time ++ '\n' :: ws.flatMap Write.text

/-- The parameter is read from the file as it was written. -/
def Param.Restored (file sec name : Text) : Param → Prop
  | scalar t v => (do let db ← IniFile.load file; paramIn db sec name t) = some v
  | array t l => (do let db ← IniFile.load file; arrayParamIn db sec name t l.length) = some l
  | vector t l => (do let db ← IniFile.load file; vectorParamIn db sec name t) = some l

instance (file sec name : Text) : ∀ p : Param, Decidable (p.Restored file sec name)
  | .scalar _ _ => inferInstanceAs (Decidable (_ = _))
  | .array _ _ => inferInstanceAs (Decidable (_ = _))
  | .vector _ _ => inferInstanceAs (Decidable (_ = _))

/-! ## Values -/

/-- The values that are read back. -/
def Good : (t : ParamType) → t.Value → Prop
  | .int T, v => T ≠ .signedChar ∧ ¬ T.IsSmallest v
  | .bool, _ => True

variable {t : ParamType}

theorem Good.type_ne {v : t.Value} (h : Good t v) : t ≠ .int .signedChar := by
  rintro rfl
  exact h.1 rfl

theorem isDec_ofNat {n : Nat} (h : n ≤ 9) : ¬ isDec (.ofNat n) := by
  have : ∀ n : Fin 10, ¬ isDec (.ofNat n.val) := by decide
  exact this ⟨n, by omega⟩

theorem parse_show (t : ParamType) (v : t.Value) : parseParam t (showParam t v) = some v ↔ Good t v := by
  cases t with
  | bool => cases v <;> exact iff_of_true (by decide) trivial
  | int T =>
    show T.toNumber (if T = .signedChar then _ else _) = some v ↔ T ≠ .signedChar ∧ ¬ T.IsSmallest v
    by_cases hT : T = .signedChar
    · -- the character would have to be a digit, whose code is not its value
      rw [if_pos hT]
      constructor
      · intro h
        obtain ⟨h0, h9⟩ := IntType.toNumber_spaced (isChain_singleton _) h
        rw [IntType.toNumber_single (isDec_ofNat (by omega))] at h
        cases h
      · intro h
        exact absurd hT h.1
    · rw [if_neg hT, IntType.toNumber_showInt]
      by_cases hs : T.IsSmallest v <;> simp [hs, hT]

theorem parseParams_show : ∀ l : List t.Value, parseParams t (l.map (showParam t)) = some l ↔ ∀ v ∈ l, Good t v
  | [] => by simp [parseParams]
  | v :: l => by
    rw [forall_mem_cons, ← parse_show, ← parseParams_show l, map_cons, parseParams]
    cases hv : parseParam t (showParam t v) with
    | none => simp
    | some w =>
      cases hl : parseParams t (l.map (showParam t)) with
      | none => simp
      | some m => simp

theorem exists_of_parseParams : ∀ {ss : List Text} {l : List t.Value}, parseParams t ss = some l →
    ∀ v ∈ l, ∃ s ∈ ss, parseParam t s = some v
  | [], l, h => by
    cases h
    simp
  | s :: ss, l, h => by
    obtain ⟨v, hv, h⟩ := bind_eq_some_iff.1 h
    obtain ⟨vs, hvs, h⟩ := bind_eq_some_iff.1 h
    obtain rfl := some.inj h
    intro w hw
    rcases mem_cons.1 hw with rfl | hw
    · exact ⟨s, mem_cons_self, hv⟩
    · obtain ⟨s', hs', h'⟩ := exists_of_parseParams hvs w hw
      exact ⟨s', mem_cons_of_mem _ hs', h'⟩

/-! ## The texts -/

/-- A word that neither ends a line nor is cut. -/
def Neat (w : Text) : Prop := w ≠ [] ∧ ' ' ∉ w ∧ '\n' ∉ w

theorem neat_showInt (v : Int) : Neat (showInt v) := by
  have hdec := isDec_toDigits v.natAbs
  have hne : Nat.toDigits 10 v.natAbs ≠ [] := by
    rcases Nat.eq_zero_or_pos v.natAbs with h | h
    · rw [h]
      decide
    · obtain ⟨c, s, hs, -⟩ := toDigits_head h
      rw [hs]
      exact cons_ne_nil c s
  have hb : ' ' ∉ Nat.toDigits 10 v.natAbs := fun h => absurd (hdec _ h) (by decide)
  have hn : '\n' ∉ Nat.toDigits 10 v.natAbs := fun h => absurd (hdec _ h) (by decide)
  unfold Neat showInt
  split <;> simp [hne, hb, hn]

theorem neat_showParam (ht : t ≠ .int .signedChar) (v : t.Value) : Neat (showParam t v) := by
  cases t with
  | bool => cases v <;> exact ⟨by decide, by decide, by decide⟩
  | int T =>
    have hT : T ≠ .signedChar := fun h => ht (h ▸ rfl)
    show Neat (if T = .signedChar then _ else _)
    rw [if_neg hT]
    exact neat_showInt v.val

namespace Param

variable {p : Param}

/-- The parameter is written in neat words. -/
def Neat (p : Param) : Prop := ∀ v ∈ p.values, Sim.Neat (showParam p.type v)

theorem text_eq (p : Param) : p.text = joinWords ' ' (p.values.map (showParam p.type)) := by
  cases p with
  | scalar t v => exact (append_nil _).symm
  | array t l | vector t l => rfl

theorem Neat.words (h : p.Neat) : ∀ w ∈ p.values.map (showParam p.type), Sim.Neat w := by
  intro w hw
  obtain ⟨v, hv, rfl⟩ := mem_map.1 hw
  exact h v hv

theorem Neat.tokens (h : p.Neat) : ∀ w ∈ p.values.map (showParam p.type), w ≠ [] ∧ ' ' ∉ w :=
  fun w hw => ⟨(h.words w hw).1, (h.words w hw).2.1⟩

theorem Neat.valueOf_text (h : p.Neat) : valueOf p.text = p.text := by
  rw [text_eq]
  exact valueOf_eq (head_joinWords h.tokens) (getLast_joinWords h.tokens)

theorem Neat.newline_text (h : p.Neat) : '\n' ∉ p.text := by
  rw [text_eq]
  intro hn
  rcases mem_joinWords hn with hn | ⟨w, hw, hn⟩
  · cases hn
  · exact (h.words w hw).2.2 hn

theorem neat_of_good (h : ∀ v ∈ p.values, Good p.type v) : p.Neat := by
  intro v hv
  exact neat_showParam (h v hv).type_ne v

variable {file sec name : Text} {db : IniFile}

theorem Neat.restored_iff_good (h : p.Neat) (hload : IniFile.load file = some db)
    (hfind : db.find sec name = some p.text) : p.Restored file sec name ↔ ∀ v ∈ p.values, Good p.type v := by
  have htok : tokenize p.text ' ' true = p.values.map (showParam p.type) := by
    rw [text_eq, tokenize_joinWords h.tokens]
  cases p with
  | scalar t v =>
    simp only [Restored, hload, bind_eq_bind, bind_some, paramIn, hfind]
    exact (parse_show t v).trans (forall_mem_singleton).symm
  | array t l =>
    simp only [Restored, hload, bind_eq_bind, bind_some, arrayParamIn, hfind, htok]
    rw [length_map, if_neg fun h => h rfl]
    exact parseParams_show l
  | vector t l =>
    simp only [Restored, hload, bind_eq_bind, bind_some, vectorParamIn, hfind, htok]
    exact parseParams_show l

theorem Restored.parsed (h : p.Restored file sec name) (hload : IniFile.load file = some db) :
    ∃ s, db.find sec name = some s ∧ ∀ v ∈ p.values, ∃ u, u <:+: s ∧ parseParam p.type u = some v := by
  have htok : ∀ {t : ParamType} {s : Text} {l : List t.Value}, parseParams t (tokenize s ' ' true) = some l →
      ∀ v ∈ l, ∃ u, u <:+: s ∧ parseParam t u = some v := by
    intro t s l hl v hv
    obtain ⟨u, hu, hp⟩ := exists_of_parseParams hl v hv
    exact ⟨u, part_of_mem_tokenize hu, hp⟩
  cases p <;> simp only [Restored, hload, bind_eq_bind, bind_some] at h <;> obtain ⟨s, hs, hp⟩ := bind_eq_some_iff.1 h
  case scalar t v => exact ⟨s, hs, forall_mem_singleton.2 ⟨s, infix_rfl, hp⟩⟩
  case array t l =>
    dsimp only at hp
    split at hp
    · cases hp
    · exact ⟨s, hs, htok hp⟩
  case vector t l => exact ⟨s, hs, htok hp⟩

theorem Restored.neat (h : p.Restored file sec name)
    (ht : p.type = .int .signedChar) (hload : IniFile.load file = some db)
    (hfind : ∀ s, db.find sec name = some s → Spaced s) : p.Neat := by
  obtain ⟨s, hs, hp⟩ := h.parsed hload
  intro v hv
  obtain ⟨u, hu, hp⟩ := hp v hv
  have hspaced := (hfind s hs).part hu
  clear hv
  generalize p.type = t at ht v
  subst ht
  -- a character with a code up to 9 is neither a blank nor the end of a line
  obtain ⟨h0, h9⟩ := IntType.toNumber_spaced hspaced hp
  have hdec : ∀ n : Fin 10, Sim.Neat [.ofNat n.val] := by
    unfold Sim.Neat
    decide
  exact hdec ⟨(v.val % 256).toNat, by omega⟩

theorem spaced_text (ht : p.type = .int .signedChar) : Spaced p.text := by
  rw [text_eq]
  refine spaced_joinWords fun w hw => ?_
  obtain ⟨v, -, rfl⟩ := mem_map.1 hw
  clear hw
  generalize p.type = t at ht v
  subst ht
  exact isChain_singleton _

end Param

/-! ## Reading -/

/-- The lines of the text are read next. -/
def readOn (f : Reader) (s : Text) : Option Reader := (lines s).foldlM Reader.line f

theorem readOn_append {s : Text} (h : s ≠ [] → s.getLast? = some '\n') (f : Reader) (t : Text) :
    readOn f (s ++ t) = (readOn f s).bind fun f => readOn f t := by
  by_cases hs : s = []
  · subst hs
    rfl
  · unfold readOn
    rw [lines_append (h hs), foldlM_append]
    rfl

namespace Write

/-- The parameter is written in neat words. -/
def Neat : Write → Prop
  | nameOut _ => True
  | paramOut _ p => p.Neat

theorem getLast_text (w : Write) : w.text.getLast? = some '\n' := by
  cases w with
  | nameOut n =>
    show ('\n' :: '[' :: n.text ++ [']', '\n']).getLast? = some '\n'
    rw [getLast?_append_of_ne_nil _ (by simp)]
    rfl
  | paramOut name p =>
    exact getLast?_concat

theorem getLast_flatMap (ws : List Write) : ws.flatMap text ≠ [] → (ws.flatMap text).getLast? = some '\n' := by
  induction ws with
  | nil => exact absurd rfl
  | cons w ws ih =>
    intro _
    rw [flatMap_cons]
    by_cases hs : ws.flatMap text = []
    · rw [hs, append_nil]
      exact w.getLast_text
    · rw [getLast?_append_of_ne_nil _ hs]
      exact ih hs

theorem readOn_nameOut (f : Reader) (n : SectionName) :
    readOn f (nameOut n).text = some { db := f.db.addSection n.text, cur := some n.text } := by
  have hl : lines (nameOut n).text = ['[' :: n.text ++ [']']] := by
    show lines ('[' :: (n.text ++ [']', '\n'])) = _
    rw [show '[' :: (n.text ++ [']', '\n']) = '[' :: (n.text ++ [']']) ++ ['\n'] by simp]
    apply lines_line (by decide)
    simp [n.newline]
  rw [readOn, hl]
  show (f.line _).bind some = _
  rw [f.line_header]
  rfl

theorem lines_paramOut (name : EntryName) (p : Param) : ∃ r ls, r <+: p.text ∧ (∀ l ∈ ls, l <:+: p.text) ∧
    lines (paramOut name p).text = (name.text ++ '=' :: r) :: ls := by
  obtain ⟨c, s, hn, hc, -⟩ := name.start
  obtain ⟨r, ls, hl, hr, hls⟩ := linesFrom_some p.text (c :: s ++ ['='])
  refine ⟨r, ls, hr, hls, ?_⟩
  have hnew := name.newline
  rw [hn] at hnew
  have htext : (paramOut name p).text = c :: (s ++ ['=']) ++ (p.text ++ ['\n']) := by simp [text, hn]
  rw [htext, lines_start hc, linesFrom_newline, hn]
  · simpa using hl
  · simp only [mem_cons, not_or] at hnew
    simp [hnew.2]

theorem readOn_paramOut (f : Reader) (name : EntryName) {p : Param} (h : p.Neat) :
    readOn f (paramOut name p).text = some (f.assign name.text p.text) := by
  obtain ⟨c, s, hn, hc, -⟩ := name.start
  have hl : lines (paramOut name p).text = [name.text ++ '=' :: p.text] := by
    show lines (name.text ++ '=' :: p.text ++ ['\n']) = _
    have hnew := name.newline
    rw [hn] at hnew ⊢
    apply lines_line hc
    simp only [mem_cons, not_or] at hnew
    simp [hnew.2, h.newline_text]
  rw [readOn, hl]
  show (f.line _).bind some = _
  rw [f.line_assign, h.valueOf_text]
  rfl

end Write

/-! ## Checkpoints -/

def sectionAfter : Option Text → List Write → Option Text
  | cur, [] => cur
  | _, .nameOut n :: ws => sectionAfter (some n.text) ws
  | cur, .paramOut _ _ :: ws => sectionAfter cur ws

/-- One of the writes is for the entry, `cur` being the section at the start. -/
def Sets (sec name : Text) : Option Text → List Write → Prop
  | _, [] => False
  | _, .nameOut n :: ws => Sets sec name (some n.text) ws
  | cur, .paramOut m _ :: ws => (cur = some sec ∧ m.text = name) ∨ Sets sec name cur ws

section writes

variable {sec name : Text} {f : Reader} {ws : List Write}

theorem readOn_writes (h : ∀ w ∈ ws, w.Neat) :
    ∃ f', readOn f (ws.flatMap Write.text) = some f' ∧ f'.cur = sectionAfter f.cur ws := by
  induction ws generalizing f with
  | nil => exact ⟨f, rfl, rfl⟩
  | cons w ws ih =>
    have hws : ∀ w ∈ ws, w.Neat := fun w hw => h w (mem_cons_of_mem _ hw)
    rw [flatMap_cons, readOn_append fun _ => w.getLast_text]
    cases w with
    | nameOut n =>
      rw [Write.readOn_nameOut]
      exact ih hws
    | paramOut m p =>
      rw [Write.readOn_paramOut f m (h _ mem_cons_self)]
      obtain ⟨f', hf, hc⟩ := ih hws
      exact ⟨f', hf, by rw [hc, Reader.cur_assign]; rfl⟩

theorem find_readOn_writes {cur : Option Text} {f' : Reader} (h : ∀ w ∈ ws, w.Neat)
    (hcur : cur = f.cur ∨ cur = some sec) (hset : ¬ Sets sec name cur ws)
    (hf : readOn f (ws.flatMap Write.text) = some f') : f'.db.find sec name = f.db.find sec name := by
  induction ws generalizing f cur with
  | nil =>
    obtain rfl : f = f' := some.inj hf
    rfl
  | cons w ws ih =>
    have hws : ∀ w ∈ ws, w.Neat := fun w hw => h w (mem_cons_of_mem _ hw)
    rw [flatMap_cons, readOn_append fun _ => w.getLast_text] at hf
    cases w with
    | nameOut n =>
      rw [Write.readOn_nameOut] at hf
      rw [ih hws (.inl rfl) hset hf, IniFile.find_addSection]
    | paramOut m p =>
      rw [Write.readOn_paramOut f m (h _ mem_cons_self)] at hf
      have hset' : ¬ (cur = some sec ∧ m.text = name) ∧ ¬ Sets sec name cur ws := not_or.1 hset
      rw [ih hws (by rwa [Reader.cur_assign]) hset'.2 hf]
      apply Reader.find_assign_of_ne
      intro hf hne
      refine hset'.1 ⟨?_, hne.symm⟩
      rcases hcur with hcur | hcur
      · exact hcur.trans hf
      · exact hcur

theorem SpacedAt.lines : ∀ {ls : List Text} {f f' : Reader}, f.SpacedAt sec name → (∀ l ∈ ls, Spaced l) →
    ls.foldlM Reader.line f = some f' → f'.SpacedAt sec name
  | [], f, f', hf, _, h => by
    obtain rfl : f = f' := some.inj h
    exact hf
  | l :: ls, f, f', hf, hl, h => by
    obtain ⟨g, hg, h⟩ := bind_eq_some_iff.1 h
    have hlast := (hl l mem_cons_self).part (afterEq_end l).isInfix
    exact SpacedAt.lines (hf.line hlast hg) (fun m hm => hl m (mem_cons_of_mem _ hm)) h

end writes

theorem line_of_cur_none {f : Reader} {c : Char} {s : Text} (hc : c ≠ '[') (hf : f.cur = none) :
    f.line (c :: s) = some f := by
  unfold Reader.line
  rw [if_neg, hf]
  rintro ⟨h, -⟩
  obtain ⟨t, ht⟩ := eatEndWhite_start (c :: s)
  cases hs : eatEndWhite (c :: s) with
  | nil =>
    rw [hs] at h
    cases h
  | cons d u =>
    rw [hs] at h ht
    obtain rfl := some.inj h
    exact hc (cons.inj ht).1.symm

theorem load_checkpoint {time : Text} (ht : '\n' ∉ time) (ws : List Write) :
    IniFile.load (checkpoint time ws) = (readOn {} (ws.flatMap Write.text)).map Reader.db := by
  have hhead : '\n' ∉ '#' :: " checkpoint generated: ".toList := by decide
  unfold checkpoint
  generalize '#' :: " checkpoint generated: ".toList = head at hhead
  rw [show '#' :: head ++ time ++ '\n' :: ws.flatMap Write.text
    = '#' :: (head ++ time) ++ ['\n'] ++ ws.flatMap Write.text by simp]
  unfold IniFile.load
  rw [lines_append getLast?_concat, lines_line (by decide) (by simp [hhead, ht]), singleton_append,
    foldlM_cons, line_of_cur_none (by decide) rfl]
  rfl

section restored

variable {time : Text} {pre post : List Write} {sec : SectionName} {name : EntryName} {p : Param}

theorem readOn_parts (f : Reader) : readOn f ((pre ++ .paramOut name p :: post).flatMap Write.text) =
    (readOn f (pre.flatMap Write.text)).bind fun f => (readOn f (Write.paramOut name p).text).bind fun f =>
      readOn f (post.flatMap Write.text) := by
  rw [flatMap_append, readOn_append (Write.getLast_flatMap pre), flatMap_cons]
  congr 1
  funext f
  rw [readOn_append fun _ => Write.getLast_text _]

variable (ht : '\n' ∉ time) (hpre : ∀ w ∈ pre, w.Neat) (hpost : ∀ w ∈ post, w.Neat)
  (hsec : sectionAfter none pre = some sec.text) (hset : ¬ Sets sec.text name.text (some sec.text) post)

include ht hpre hpost hsec hset

theorem find_of_neat (hp : p.Neat) : ∃ db, IniFile.load (checkpoint time (pre ++ .paramOut name p :: post)) = some db ∧
      db.find sec.text name.text = some p.text := by
  obtain ⟨f, hf, hcur⟩ := readOn_writes hpre
  obtain ⟨g, hg, -⟩ := readOn_writes hpost
  refine ⟨g.db, ?_, ?_⟩
  · rw [load_checkpoint ht, readOn_parts, hf, bind_some, Write.readOn_paramOut f name hp, bind_some, hg]
    rfl
  · rw [find_readOn_writes hpost (.inr rfl) hset hg]
    exact f.find_assign (hcur.trans hsec) _ _

theorem spaced_of_load {db : IniFile} (hp : p.type = .int .signedChar)
    (hload : IniFile.load (checkpoint time (pre ++ .paramOut name p :: post)) = some db) :
    ∀ s, db.find sec.text name.text = some s → Spaced s := by
  obtain ⟨f, hf, hcur⟩ := readOn_writes hpre
  rw [load_checkpoint ht, readOn_parts, hf, bind_some] at hload
  obtain ⟨g, hg, rfl⟩ := map_eq_some_iff.1 hload
  obtain ⟨h, hh, hg⟩ := bind_eq_some_iff.1 hg
  rw [find_readOn_writes hpost (.inr rfl) hset hg]
  -- the first line sets the entry; the others may do so again
  have htext := Param.spaced_text hp
  obtain ⟨r, ls, hr, hls, hl⟩ := Write.lines_paramOut name p
  rw [readOn, hl, foldlM_cons, f.line_assign] at hh
  refine SpacedAt.lines ?_ (fun l hl => htext.part (hls l hl)) hh
  intro s hs
  rw [f.find_assign (hcur.trans hsec)] at hs
  obtain rfl := some.inj hs
  exact (htext.part hr.isInfix).part (valueOf_part r)

end restored

/-- A parameter of a checkpoint is restored exactly if no value is of type `signed char` or the smallest of a signed
type. The names of the other parameters and sections may be any; no other parameter has a blank or a newline for a
`signed char`. -/
theorem restored_iff (time : Text) (ht : '\n' ∉ time) (pre post : List Write) (sec : SectionName) (name : EntryName)
    (p : Param) (hpre : ∀ w ∈ pre, w.Neat) (hpost : ∀ w ∈ post, w.Neat) (hsec : sectionAfter none pre = some sec.text)
    (hset : ¬ Sets sec.text name.text (some sec.text) post) :
    p.Restored (checkpoint time (pre ++ .paramOut name p :: post)) sec.text name.text ↔
      ∀ v ∈ p.values, Good p.type v := by
  have hiff : p.Neat → (p.Restored (checkpoint time (pre ++ .paramOut name p :: post)) sec.text name.text ↔
      ∀ v ∈ p.values, Good p.type v) := by
    intro hp
    obtain ⟨db, hload, hfind⟩ := find_of_neat ht hpre hpost hsec hset hp
    exact hp.restored_iff_good hload hfind
  constructor
  · intro h
    by_cases hp : p.type = .int .signedChar
    · obtain ⟨db, hload⟩ : ∃ db, IniFile.load (checkpoint time (pre ++ .paramOut name p :: post)) = some db := by
        cases hload : IniFile.load (checkpoint time (pre ++ .paramOut name p :: post)) with
        | some db => exact ⟨db, rfl⟩
        | none => cases p <;> simp [Param.Restored, hload] at h
      exact (hiff (h.neat hp hload (spaced_of_load ht hpre hpost hsec hset hp hload))).1 h
    · exact (hiff fun v _ => neat_showParam hp v).1 h
  · intro h
    exact (hiff (Param.neat_of_good h)).2 h

def globalsSection : SectionName := ⟨"Globals".toList, by decide, by decide⟩

def curTickEntry : EntryName where
  text := "curTick".toList
  start := ⟨'c', "urTick".toList, by decide, by decide, by decide⟩
  newline := by decide
  equals := by decide
  blank := by decide
  plus := by decide

def oneParam (p : Param) : Text := checkpoint [] ([.nameOut globalsSection] ++ [.paramOut curTickEntry p])

theorem restored_curTick :
    (Param.scalar (.int .signedLongLong) (IntType.cast _ (-1000))).Restored
      (oneParam (.scalar (.int .signedLongLong) (IntType.cast _ (-1000)))) globalsSection.text curTickEntry.text := by
  apply (restored_iff [] not_mem_nil [.nameOut globalsSection] [] globalsSection curTickEntry _ ?_ ?_ ?_ ?_).2
  · exact forall_mem_singleton.2 ⟨by decide, by decide⟩
  · exact forall_mem_singleton.2 trivial
  · exact forall_mem_nil _
  · rfl
  · exact id

/-- Neither a `signed char` nor the smallest `int` comes back. -/
theorem not_restored_curTick :
    ¬ (Param.scalar (.int .signedChar) (IntType.cast _ 65)).Restored
      (oneParam (.scalar (.int .signedChar) (IntType.cast _ 65))) globalsSection.text curTickEntry.text ∧
    ¬ (Param.scalar (.int .signedInt) (IntType.cast _ (-2 ^ 31))).Restored
      (oneParam (.scalar (.int .signedInt) (IntType.cast _ (-2 ^ 31)))) globalsSection.text curTickEntry.text := by
  decide +kernel

end M5.Sim
