import CodeSurvey.Proofs.Data.Same
import CodeSurvey.Toml.Document

/-!
Whatever text a table of a configuration is read from, every table in it has each name once. An
entry takes the place of the one of its name, and the tables on the way to it keep their names.
-/

namespace CodeSurvey.Toml

open Data

/-! ### Answers -/

/-- What is answered, if anything, has a property. -/
def Gives {α : Type} (P : α → Prop) (x : Except Fault α) : Prop := ∀ a, x = .ok a → P a

namespace Gives

variable {α β : Type} {P : α → Prop} {Q : β → Prop} {x : Except Fault α} {f : α → Except Fault β}

theorem ok {a : α} (h : P a) : Gives P (.ok a) := fun _ heq => Except.ok.inj heq ▸ h

theorem error (fault : Fault) : Gives P (.error fault) := fun _ heq => nomatch heq

theorem any : Gives (fun _ => True) x := fun _ _ => trivial

theorem bind (hx : Gives P x) (hf : ∀ a, P a → Gives Q (f a)) : Gives Q (x >>= f) := by
  intro b heq
  cases x with
  | error fault => cases heq
  | ok a => exact hf a (hx a rfl) b heq

theorem throw_bind (fault : Fault) : Gives Q ((throw fault : Except Fault α) >>= f) :=
  fun _ heq => nomatch heq

end Gives

variable {a b value : Data} {name : List Char} {entries : List (Data × Data)}

/-! ### Places -/

namespace Level

theorem gives_get (h : Tidy a) : Gives (∀ v ∈ ·, Tidy v) (get name a) := by
  unfold get
  split
  · exact .ok fun v hv => h.of_get? hv
  · exact .error _
  · exact .error _
  · exact .error _

theorem gives_last (h : Tidy a) : Gives (∀ v ∈ ·, Tidy v) (last a) := by
  unfold last
  split
  · exact .ok (by simp)
  · split
    · exact .ok fun v hv => Option.some.inj hv ▸ .plain rfl
    · exact .error _
  · split
    · rename_i hlast
      exact .ok fun v hv => Option.some.inj hv ▸ h.item (List.mem_of_getLast? hlast)
    · exact .error _
  · exact .error _

theorem gives_put (ha : Tidy a) (hvalue : Tidy value) : Gives Tidy (put name value a) := by
  unfold put
  split
  · exact .ok (ha.put _ hvalue)
  · exact .error _
  · exact .error _
  · exact .error _

theorem tidy_getD {found : Option Data} (hfound : ∀ v ∈ found, Tidy v) (ha : Tidy a) :
    Tidy (found.getD a) := by
  cases found with
  | none => exact ha
  | some v => exact hfound v rfl

theorem tidy_follow? {steps : List Step} (ha : Tidy a) (h : follow? steps a = some b) :
    Tidy b := by
  induction steps generalizing a with
  | nil => exact Option.some.inj h ▸ ha
  | cons step more ih =>
    unfold follow? at h
    split at h
    · contradiction
    · rename_i hsteps
      obtain ⟨-, rfl⟩ := List.cons.inj hsteps
      obtain ⟨v, hv, hmore⟩ := Option.bind_eq_some_iff.1 h
      exact ih (ha.of_get? hv) hmore
    · rename_i hsteps
      obtain ⟨-, rfl⟩ := List.cons.inj hsteps
      obtain ⟨v, hv, hmore⟩ := Option.bind_eq_some_iff.1 h
      exact ih (ha.item (List.mem_of_getLast? hv)) hmore
    · cases h

theorem tidy_map_values {f : Data × Data → Data × Data} (h : Tidy (.map entries))
    (hf : ∀ e, (f e).1 = e.1 ∧ (Tidy e.2 → Tidy (f e).2)) : Tidy (.map (entries.map f)) := by
  have hkeys : (entries.map f).map (·.1) = entries.map (·.1) := by
    rw [List.map_map]
    exact List.map_congr_left fun e _ => (hf e).1
  refine .map (h.named.of_perm (.of_eq hkeys)) fun e he => ?_
  obtain ⟨e', he', rfl⟩ := List.mem_map.1 he
  exact (hf e').2 (h.value he')

theorem tidy_change {f : Data → Data} (hf : ∀ x, Tidy x → Tidy (f x)) {steps : List Step}
    (ha : Tidy a) : Tidy (change f steps a) := by
  induction steps generalizing a with
  | nil => exact hf _ ha
  | cons step more ih =>
    unfold change
    split
    · contradiction
    · rename_i name more' entries hsteps
      obtain ⟨-, rfl⟩ := List.cons.inj hsteps
      refine tidy_map_values ha fun e => ?_
      split
      · split
        · exact ⟨rfl, fun he => ih he⟩
        · exact ⟨rfl, id⟩
      · exact ⟨rfl, id⟩
    · rename_i items hsteps
      obtain ⟨-, rfl⟩ := List.cons.inj hsteps
      split
      · exact .list (by simp)
      · rename_i item before hitems
        have hmem : ∀ v ∈ item :: before, Tidy v := fun v hv =>
          ha.item (List.mem_reverse.1 (hitems ▸ hv))
        refine .list fun v hv => ?_
        rcases List.mem_append.1 hv with hv | hv
        · exact hmem v (List.mem_cons_of_mem _ (List.mem_reverse.1 hv))
        · rw [List.mem_singleton.1 hv]
          exact ih (hmem item List.mem_cons_self)
    · exact ha

theorem gives_enter {found : Except Fault (Option Data)} (hfound : Gives (∀ v ∈ ·, Tidy v) found)
    (opened : List (List Char)) (ha : Tidy a) : Gives Tidy (enter name found opened a) := by
  induction opened generalizing a with
  | nil =>
    rw [enter]
    refine .bind hfound fun v hv => ?_
    split
    · dsimp only
      split
      · exact .throw_bind _
      · cases v with
        | none => exact .ok ha
        | some v => exact .ok (ha.put _ (hv v rfl))
    · exact .error _
  | cons first more ih =>
    cases first with
    | nil => exact ih ha
    | cons c first =>
      rw [enter]
      · refine .bind .any fun isThere _ => ?_
        extract_lets within
        have hwithin : ∀ level, Tidy level → Gives Tidy (within level) := fun level hlevel =>
          .bind (gives_get hlevel) fun inner hinner =>
            .bind (ih (tidy_getD hinner tidy_empty)) fun _ hlower => gives_put hlevel hlower
        split
        · exact .bind (.ok ha) hwithin
        · exact .bind (gives_put ha tidy_empty) hwithin
      · simp

end Level

/-! ### Values -/

theorem gives_quotedText (quote : Char) (v : List Char) : Gives Tidy (quotedText quote v) := by
  unfold quotedText
  extract_lets isOnce finish read
  have hfinish : ∀ v, Gives Tidy (finish v) := fun v => .ok (.plain rfl)
  have hread : Gives Tidy (read ()) := by
    unfold read
    split
    · exact .bind .any fun v _ => hfinish v
    · exact hfinish v
  split
  · exact .throw_bind _
  · exact hread

theorem gives_number (v : List Char) : Gives Tidy (number v) := by
  unfold number
  split
  rename_i isNegative rest _
  extract_lets v isFloat readInt readWord
  have hint : Gives Tidy (readInt ()) := by
    unfold readInt
    split
    · exact .error _
    · exact .ok (.plain rfl)
  have hword : Gives Tidy (readWord ()) := by
    unfold readWord
    split
    · split
      · exact .throw_bind _
      · exact .ok (.plain rfl)
    · exact hint
  split
  · split
    · exact .throw_bind _
    · exact hword
  · exact hword

theorem isKey_of_calendarValue? {v : List Char} (h : calendarValue? v = some a) :
    a.isKey = true := by
  unfold calendarValue? at h
  dsimp only at h
  split at h
  · cases h
  · simp only [Option.bind_eq_bind, Option.bind_eq_some_iff] at h
    obtain ⟨year, -, month, -, day, -, date, -, h⟩ := h
    split at h
    · cases h
      rfl
    · simp only [Option.bind_eq_some_iff] at h
      obtain ⟨micros, -, hour, -, minute, -, second, -, time, -, h⟩ := h
      cases h
      rfl

theorem gives_plainValue (isStrict : Bool) (v : List Char) :
    Gives Tidy (plainValue isStrict v) := by
  unfold plainValue
  extract_lets readDate readTime
  have hdate : Gives Tidy (readDate ()) := by
    unfold readDate
    split
    · rename_i hvalue
      exact .ok (.plain (isKey_of_calendarValue? hvalue))
    · split
      · exact gives_number v
      · exact .error _
  have htime : Gives Tidy (readTime ()) := by
    unfold readTime
    split
    · split
      · exact .ok (.plain rfl)
      · exact .throw_bind _
    · exact hdate
  split
  · exact .ok (.plain rfl)
  · split
    · exact .ok (.plain rfl)
    · split
      · exact .throw_bind _
      · exact htime

theorem gives_elements {read : List Char → Except Fault Data}
    (hread : ∀ part, Gives Tidy (read part)) (parts : List (List Char)) (first : Option Data) :
    Gives (∀ a ∈ ·, Tidy a) (elements read first parts) := by
  induction parts generalizing first with
  | nil => exact .ok fun _ h => nomatch h
  | cons part more ih =>
    rw [elements]
    dsimp only
    split
    · exact ih first
    · refine .bind (hread _) fun value hvalue => ?_
      split
      · exact .throw_bind _
      · refine .bind (ih _) fun items hitems => .ok ?_
        exact List.forall_mem_cons.2 ⟨hvalue, hitems⟩

section Entries

variable {read : Bool → List Char → Except Fault Data}

theorem gives_enterLine (hread : ∀ isStrict v, Gives Tidy (read isStrict v)) (line : List Char)
    (ha : Tidy a) : Gives (fun r => Tidy r.1) (enterLine read line a) := by
  unfold enterLine
  dsimp only
  refine .bind .any fun cut _ => .bind .any fun names _ => ?_
  have hfound : Gives (∀ v ∈ ·, Tidy v) (do
      if ← isOpenText (Text.trim cut.2.1) then pure none
      else return some (← read cut.2.2 (Text.trim cut.2.1))) := by
    refine .bind .any fun isOpen _ => ?_
    split
    · exact .ok (by simp)
    · exact .bind (hread _ _) fun v hv => .ok fun _ h => Option.some.inj h ▸ hv
  refine .bind (Level.gives_enter hfound names.1 ha) fun level hlevel => ?_
  refine .bind .any fun isOpen _ => ?_
  split
  · split
    · exact .throw_bind _
    · exact .ok hlevel
  · exact .ok hlevel

theorem gives_enterAll (hread : ∀ isStrict v, Gives Tidy (read isStrict v))
    (lines : List (List Char)) (ha : Tidy a) : Gives Tidy (enterAll read lines a) := by
  induction lines generalizing a with
  | nil => exact .ok ha
  | cons line more ih =>
    rw [enterAll]
    refine .bind (gives_enterLine hread line ha) fun r hr => ?_
    dsimp only
    split
    · exact .ok hr
    · exact ih hr

end Entries

theorem gives_valueWithin (fuel : Nat) (isStrict : Bool) (v : List Char) :
    Gives Tidy (valueWithin fuel isStrict v) := by
  induction fuel generalizing isStrict v with
  | zero => exact .error _
  | succ fuel ih =>
    unfold valueWithin
    split
    · exact .error _
    · split
      · exact gives_quotedText _ _
      · split
        · exact .bind .any fun parts _ => .bind (gives_elements (ih true) parts none)
            fun items hitems => .ok (.list hitems)
        · split
          · exact .bind .any fun lines _ => gives_enterAll ih lines tidy_empty
          · exact gives_plainValue _ _

theorem gives_value (isStrict : Bool) (v : List Char) : Gives Tidy (Toml.value isStrict v) :=
  gives_valueWithin _ _ _

/-! ### Documents -/

namespace Document

variable {d : Document}

theorem tidy_level (hd : Tidy d.root) : Tidy d.level := by
  rw [level]
  cases h : Level.follow? d.place d.root with
  | none => exact .plain rfl
  | some v => exact Level.tidy_follow? hd h

theorem tidy_withLevel (hd : Tidy d.root) (ha : Tidy a) : Tidy (d.withLevel a).root :=
  Level.tidy_change (fun _ _ => ha) hd

theorem gives_descend (isElement isLast : Bool) (hd : Tidy d.root) (ha : Tidy a) :
    Gives (fun r => Tidy r.1.root ∧ Tidy r.2) (descend isElement isLast name d a) := by
  unfold descend
  extract_lets fresh d₀ below₀ close reach opened below₁ passed inside go
  have hfresh : Tidy fresh := by
    unfold fresh
    split
    · exact .list fun _ h => List.mem_singleton.1 h ▸ tidy_empty
    · exact tidy_empty
  have hclose : ∀ (e : Document) (below : Data), Tidy e.root → Tidy below →
      Gives (fun r => Tidy r.1.root ∧ Tidy r.2) (close () e below) := by
    intro e below he hbelow
    unfold close
    split
    · refine .bind (Level.gives_last hbelow) fun r hr => ?_
      split
      · exact .ok ⟨he, hr _ rfl⟩
      · exact .ok ⟨he, hbelow⟩
    · exact .ok ⟨he, hbelow⟩
  have hreach : ∀ (e : Document) (below : Data), Tidy e.root → Tidy below →
      Gives (fun r => Tidy r.1.root ∧ Tidy r.2) (reach () e below) := fun _ _ he hbelow =>
    .bind (Level.gives_put ha hbelow) fun _ hv => hclose _ _ (tidy_withLevel he hv) hbelow
  have hgo : Gives (fun r => Tidy r.1.root ∧ Tidy r.2) (go ()) := by
    unfold go
    split
    · refine .bind (Level.gives_get ha) fun found hfound => ?_
      split
      · rename_i found
        have hbelow : Tidy found := hfound found rfl
        split
        · split
          · split
            · exact .throw_bind _
            · exact hreach _ _ hd hbelow
          · split
            · dsimp only
              split
              · exact .throw_bind _
              · refine hreach _ _ hd (.list fun v hv => ?_)
                rcases List.mem_append.1 hv with hv | hv
                · exact hbelow.item hv
                · exact List.mem_singleton.1 hv ▸ tidy_empty
            · dsimp only
              split
              · exact .throw_bind _
              · exact .throw_bind _
        · exact hreach _ _ hd hbelow
      · split
        · exact hreach _ _ hd hfresh
        · exact hreach _ _ hd hfresh
    · refine .bind (Level.gives_last ha) fun r hr => .bind .any fun isThere _ => ?_
      have hinside : Tidy (r.getD a) := Level.tidy_getD hr ha
      split
      · exact .bind (Level.gives_get hinside) fun found hfound =>
          hclose _ _ hd (Level.tidy_getD hfound hfresh)
      · exact .bind (Level.gives_put hinside hfresh) fun v hv =>
          hclose _ _ (tidy_withLevel hd hv) hfresh
  split
  · exact .throw_bind _
  · exact hgo

theorem gives_openTables (isElement : Bool) (names : List (List Char)) (hd : Tidy d.root)
    (ha : Tidy a) : Gives (Tidy ·.root) (openTables isElement names d a) := by
  induction names generalizing d a with
  | nil => exact .ok hd
  | cons name more ih =>
    exact .bind (gives_descend _ _ hd ha) fun r hr => ih hr.1 hr.2

theorem gives_continueText (t : OpenText) (line : List Char) (hd : Tidy d.root) :
    Gives (Tidy ·.root) (continueText d t line) := by
  unfold continueText
  extract_lets content first isClosed isEscaping content' goOn
  have hgoOn : Gives (Tidy ·.root) (goOn ()) := by
    unfold goOn
    split
    · exact .bind (gives_value true content) fun v hv =>
        .bind (Level.gives_put (tidy_level hd) hv) fun w hw => .ok (tidy_withLevel hd hw)
    · exact .ok hd
  split
  · exact .throw_bind _
  · exact hgoOn

theorem gives_plainLine (line : List Char) (hd : Tidy d.root) :
    Gives (Tidy ·.root) (plainLine d line) := by
  unfold plainLine
  split
  · exact .bind .any fun r _ => gives_openTables _ _ hd hd
  · split
    · split
      · exact .throw_bind _
      · exact .bind .any fun lines _ => .bind (gives_enterAll gives_value lines (tidy_level hd))
          fun v hv => .ok (tidy_withLevel hd hv)
    · split
      · exact .bind (gives_enterLine gives_value line (tidy_level hd)) fun r hr =>
          .ok (tidy_withLevel hd hr)
      · exact .ok hd

theorem gives_addLine (line : List Char) (hd : Tidy d.root) :
    Gives (Tidy ·.root) (addLine d line) := by
  unfold addLine
  split
  · extract_lets line
    split
    · exact .ok hd
    · exact gives_plainLine _ hd
  · extract_lets line
    split
    · exact .ok hd
    · exact gives_continueText _ _ hd

theorem gives_addLines (lines : List (List Char)) (hd : Tidy d.root) :
    Gives (Tidy ·.root) (lines.foldlM addLine d) := by
  induction lines generalizing d with
  | nil => exact .ok hd
  | cons line more ih =>
    rw [List.foldlM_cons]
    exact .bind (gives_addLine line hd) fun _ => ih

end Document

/-- In a table that was read every table has each name once. -/
theorem tidy_load {text : List Char} (h : load text = .ok entries) : Tidy (.map entries) := by
  have hload : Gives (fun entries => Tidy (.map entries)) (load text) := by
    unfold load
    refine .bind .any fun ls _ => .bind (Document.gives_addLines ls tidy_empty) fun d hd => ?_
    split
    · rename_i hroot
      exact .ok (hroot ▸ hd)
    · exact .error _
  exact hload entries h

end CodeSurvey.Toml
