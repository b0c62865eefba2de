import PagedGraph.Proofs.Inserting

/-!
# Working next to others

Between two turns of an insertion the others may do anything that keeps to three rules: the store
stays intact, no page is lost, and the entry point is neither lost nor replaced by a lower one
(`Store.Later`). Every turn of the insertion keeps to the same rules, whatever the others have done
since its last turn.

An insertion commits in a single turn (`Turns.Commits`). Before that turn it only looks, and after
it it only links and promotes: no other turn touches any element. When it says that it has stored
an element, the entry point stands at least as high as that element, and a second attempt to
promote it cannot lose a race.
-/

set_option autoImplicit false

namespace PagedGraph

def Rises (a b : Option EntryPoint) : Prop :=
  ∀ e, a = some e → ∃ f, b = some f ∧ e.level ≤ f.level

theorem Rises.refl (a : Option EntryPoint) : Rises a a :=
  fun e he => ⟨e, he, UInt8.le_refl _⟩

theorem Rises.trans {a b c : Option EntryPoint} (h : Rises a b) (h' : Rises b c) : Rises a c := by
  intro e he
  obtain ⟨f, hf, hef⟩ := h e he
  obtain ⟨g, hg, hfg⟩ := h' f hf
  exact ⟨g, hg, UInt8.le_trans hef hfg⟩

theorem rises_some {e f : EntryPoint} {a : Option EntryPoint} (h : a = some f)
    (hle : e.level ≤ f.level) : Rises (some e) a := by
  intro e' he
  cases he
  exact ⟨f, h, hle⟩

namespace Store

/-- What a store may have become while others were at work. -/
structure Later (t : Header) (s s' : Store) : Prop where
  intact : s'.Intact t
  size : s.pages.size ≤ s'.pages.size
  entry : Rises s.entry s'.entry

structure Quiet (t : Header) (s s' : Store) : Prop extends Later t s s' where
  before : s.Intact t
  element : ∀ l e, s'.record? l = some (.element e) ↔ s.record? l = some (.element e)

variable {t : Header} {s s' s'' : Store}

theorem Later.refl (h : s.Intact t) : Later t s s := ⟨h, Nat.le_refl _, .refl _⟩

theorem Later.trans (h : Later t s s') (h' : Later t s' s'') : Later t s s'' where
  intact := h'.intact
  size := Nat.le_trans h.size h'.size
  entry := Rises.trans h.entry h'.entry

theorem Quiet.refl (h : s.Intact t) : Quiet t s s := ⟨.refl h, h, fun _ _ => Iff.rfl⟩

theorem Kept.quiet (h : Kept t s s') (hs : s.Intact t) : Quiet t s s' where
  before := hs
  intact := h.intact
  size := Nat.le_of_eq h.size.symm
  entry := by
    rw [h.entry]
    exact .refl _
  element := h.element

theorem Rewritten.later {l : Location} {r : Record} (h : Rewritten s s' l r)
    (hintact : s'.Intact t) : Later t s s' where
  intact := hintact
  size := Nat.le_of_eq h.size.symm
  entry := by
    rw [entry, entry, h.header]
    exact .refl _

end Store

theorem Promoted.quiet {t : Header} {s s' : Store} {candidate : EntryPoint}
    {prior : Option EntryPoint} {a : Promotion} (h : Promoted t s candidate prior a s')
    (hs : s.Intact t) : s.Quiet t s' := by
  cases h with
  | installed s' intact record size entry above =>
    refine ⟨⟨intact, Nat.le_of_eq size.symm, ?_⟩, hs, fun l e => by rw [record]⟩
    exact fun current hnow => ⟨candidate, entry, UInt8.le_of_lt (above current hnow).2⟩
  | superseded current found high => exact .refl hs
  | raced current found first => exact .refl hs

namespace Turns

variable {τ α β : Type} {t : Header} {G : Store → Store → Prop}

/-- Every turn of a program keeps to the rules, and `G` holds of the stores before and after it. The
result is as said when the last turn is over. -/
def Safe (t : Header) (G : Store → Store → Prop) (Q : α → Store → Prop) : Turns τ α → Store → Prop
  | done a, s => Q a s
  | turn action next, s₀ => ∀ s own, s₀.Later t s → (action.after s own).1.Numbered →
      s.Later t (action.after s own).1 ∧ G s (action.after s own).1 ∧
        ∀ b s' own', action (s, own) = .ok b (s', own') → (next b).Safe t G Q s'

/-- A program of turns with `G`, but for a single one, with which it commits. That turn settles the
result, and `C` holds of the stores before and after it. -/
def Commits (t : Header) (G : Store → Store → Prop) (C : α → Store → Store → Prop)
    (Q : α → Store → Prop) : Turns τ α → Store → Prop
  | done _, _ => False
  | turn action next, s₀ => ∀ s own, s₀.Later t s → (action.after s own).1.Numbered →
      s.Later t (action.after s own).1 ∧
        (∀ e y, action (s, own) = .error e y → G s y.1) ∧
        ∀ b s' own', action (s, own) = .ok b (s', own') →
          G s s' ∧ (next b).Commits t G C Q s' ∨
          ∃ a, C a s s' ∧ (next b).Safe t G (fun a' s₂ => a' = a ∧ Q a s₂) s'

variable {Q : α → Store → Prop} {R : β → Store → Prop} {C : α → Store → Store → Prop}
  {D : β → Store → Store → Prop} {f : α → Turns τ β}

theorem Safe.mono {G' : Store → Store → Prop} {Q' : α → Store → Prop} {x : Turns τ α}
    (hG : ∀ s s', G s s' → G' s s') (hQ : ∀ a s, Q a s → Q' a s) :
    ∀ s, x.Safe t G Q s → x.Safe t G' Q' s := by
  induction x with
  | done a =>
    intro s hx
    exact hQ a s hx
  | turn action next ih =>
    intro s₀ hx s own hs hb
    obtain ⟨hlater, hg, hnext⟩ := hx s own hs hb
    exact ⟨hlater, hG _ _ hg, fun b s' own' hrun => ih b s' (hnext b s' own' hrun)⟩

theorem Safe.later (hQ : ∀ a s s', s.Later t s' → Q a s → Q a s') {x : Turns τ α} {s s' : Store}
    (hs : s.Later t s') (h : x.Safe t G Q s) : x.Safe t G Q s' := by
  cases x with
  | done a => exact hQ a s s' hs h
  | turn action next => exact fun s₁ own hs₁ => h s₁ own (hs.trans hs₁)

theorem Commits.later {x : Turns τ α} {s s' : Store} (hs : s.Later t s')
    (h : x.Commits t G C Q s) : x.Commits t G C Q s' := by
  cases x with
  | done a => exact h
  | turn action next => exact fun s₁ own hs₁ => h s₁ own (hs.trans hs₁)

theorem Safe.frame {P : Store → Prop} (hP : ∀ s s', s.Later t s' → P s → P s') {x : Turns τ α} :
    ∀ s, P s → x.Safe t G Q s → x.Safe t G (fun a s => Q a s ∧ P s) s := by
  induction x with
  | done a =>
    intro s hp hx
    exact ⟨hx, hp⟩
  | turn action next ih =>
    intro s₀ hp hx s own hs hb
    obtain ⟨hlater, hg, hnext⟩ := hx s own hs hb
    refine ⟨hlater, hg, fun b s' own' hrun => ih b s' ?_ (hnext b s' own' hrun)⟩
    rw [ActionWith.after, hrun] at hlater
    exact hP _ _ (hs.trans hlater) hp

theorem Safe.bind {x : Turns τ α} (hf : ∀ a s, Q a s → (f a).Safe t G R s) :
    ∀ s, x.Safe t G Q s → (x >>= f).Safe t G R s := by
  induction x with
  | done a =>
    intro s hx
    exact hf a s hx
  | turn action next ih =>
    intro s₀ hx s own hs hb
    obtain ⟨hlater, hg, hnext⟩ := hx s own hs hb
    exact ⟨hlater, hg, fun b s' own' hrun => ih b s' (hnext b s' own' hrun)⟩

theorem Safe.commits {x : Turns τ α} (hf : ∀ a s, Q a s → (f a).Commits t G D R s) :
    ∀ s, x.Safe t G Q s → (x >>= f).Commits t G D R s := by
  induction x with
  | done a =>
    intro s hx
    exact hf a s hx
  | turn action next ih =>
    intro s₀ hx s own hs hb
    obtain ⟨hlater, hg, hnext⟩ := hx s own hs hb
    refine ⟨hlater, fun e y hrun => ?_, fun b s' own' hrun => ?_⟩
    · rw [ActionWith.after, hrun] at hg
      exact hg
    · rw [ActionWith.after, hrun] at hg
      exact .inl ⟨hg, ih b s' (hnext b s' own' hrun)⟩

theorem Commits.bind {x : Turns τ α} (g : α → β) (hC : ∀ a s s', C a s s' → D (g a) s s')
    (hf : ∀ a s, Q a s → (f a).Safe t G (fun b s => b = g a ∧ R (g a) s) s) :
    ∀ s, x.Commits t G C Q s → (x >>= f).Commits t G D R s := by
  induction x with
  | done a =>
    intro s hx
    exact hx.elim
  | turn action next ih =>
    intro s₀ hx s own hs hb
    obtain ⟨hlater, hfail, hnext⟩ := hx s own hs hb
    refine ⟨hlater, hfail, fun b s' own' hrun => ?_⟩
    rcases hnext b s' own' hrun with ⟨hg, hrest⟩ | ⟨a, hc, hrest⟩
    · exact .inl ⟨hg, ih b s' hrest⟩
    · refine .inr ⟨g a, hC a s s' hc, Safe.bind (fun a' s₂ ha => ?_) s' hrest⟩
      rw [ha.1]
      exact hf a s₂ ha.2

theorem Commits.safe {x : Turns τ α} :
    ∀ s, x.Commits t G C Q s → x.Safe t (fun _ _ => True) Q s := by
  induction x with
  | done a =>
    intro s hx
    exact hx.elim
  | turn action next ih =>
    intro s₀ hx s own hs hb
    obtain ⟨hlater, -, hnext⟩ := hx s own hs hb
    refine ⟨hlater, trivial, fun b s' own' hrun => ?_⟩
    rcases hnext b s' own' hrun with ⟨-, hrest⟩ | ⟨a, -, hrest⟩
    · exact ih b s' hrest
    · exact hrest.mono (fun _ _ _ => trivial) (fun a' _ ha => ha.1.symm ▸ ha.2) s'

/-- A turn that runs an action: either the action fails and `P` holds of the store as it is, or it
has a result, and `P` holds of the store after it as long as page numbers last. -/
theorem act_turn {a : Action α} {s : Store} {own : τ} (P : Store → Prop) (S : α → Store → Prop)
    (hb : ((ActionWith.act a).after s own).1.Numbered)
    (h : (∃ e, a s = .error e s) ∧ P s ∨
      ∃ b s', a s = .ok b s' ∧ (s'.Numbered → P s' ∧ S b s')) :
    P ((ActionWith.act a).after s own).1 ∧
      (∀ e y, ActionWith.act a (s, own) = .error e y → y.1 = s) ∧
      ∀ b s' own', ActionWith.act a (s, own) = .ok b (s', own') → S b s' := by
  rw [ActionWith.after_act] at hb ⊢
  rw [Action.after] at hb ⊢
  rw [ActionWith.act]
  rcases h with ⟨⟨e, he⟩, hp⟩ | ⟨b, s', hrun, hkeep⟩
  · simp only [he] at hb ⊢
    refine ⟨hp, fun c y hact => ?_, fun b s' own' hact => ?_⟩
    · cases hact
      rfl
    · cases hact
  · simp only [hrun] at hb ⊢
    obtain ⟨hp, hresult⟩ := hkeep hb
    refine ⟨hp, fun c y hact => ?_, fun c s'' own' hact => ?_⟩
    · cases hact
    · cases hact
      exact hresult

end Turns

section
variable {τ : Type} {t : Header} {G : Store → Store → Prop}

theorem safe_act {α : Type} {Q : α → Store → Prop} {a : Action α} {s₀ : Store}
    (hG : ∀ s, s.Intact t → G s s)
    (h : ∀ s, s₀.Later t s → (∃ e, a s = .error e s) ∨
      ∃ b s', a s = .ok b s' ∧ (s.Later t s' ∧ G s s') ∧ Q b s') :
    (Turns.act a : Turns τ α).Safe t G Q s₀ := by
  intro s own hs hb
  have hturn := Turns.act_turn (fun s' => s.Later t s' ∧ G s s') Q hb (by
    rcases h s hs with hfail | ⟨b, s', hrun, hkeep⟩
    · exact .inl ⟨hfail, .refl hs.intact, hG s hs.intact⟩
    · exact .inr ⟨b, s', hrun, fun _ => hkeep⟩)
  exact ⟨hturn.1.1, hturn.1.2, hturn.2.2⟩

variable (hG : ∀ s s', s.Intact t → Store.Kept t s s' → G s s')
include hG

theorem safe_kept {α : Type} {Q : α → Store → Prop} {a : Action α} {s₀ : Store}
    (h : ∀ s, s₀.Later t s → (∃ e, a s = .error e s) ∨
      ∃ b s', a s = .ok b s' ∧ Store.Kept t s s' ∧ Q b s') :
    (Turns.act a : Turns τ α).Safe t G Q s₀ := by
  refine safe_act (fun s hs => hG s s hs (.refl hs)) fun s hs => (h s hs).imp_right ?_
  rintro ⟨b, s', hrun, hkept, hq⟩
  exact ⟨b, s', hrun, ⟨(hkept.quiet hs.intact).toLater, hG s s' hs.intact hkept⟩, hq⟩

theorem safe_looking {α : Type} {Q : α → Store → Prop} {f : Store → Except Error α} {s₀ : Store}
    (hQ : ∀ s a, f s = .ok a → Q a s) :
    (Turns.act (Action.reading f) : Turns τ α).Safe t G Q s₀ := by
  apply safe_kept hG
  intro s hs
  cases hf : f s with
  | error e => exact .inl ⟨e, by rw [Action.reading, hf]⟩
  | ok a => exact .inr ⟨a, s, by rw [Action.reading, hf], .refl hs.intact, hQ s a hf⟩

theorem safe_writeLink (p : Params) (target : Location) (c : Connection) (layer : Nat)
    (s₀ : Store) :
    (Turns.act (writeLink p target c layer) : Turns τ Unit).Safe t G (fun _ _ => True) s₀ := by
  apply safe_kept hG
  intro s hs
  by_cases hl : ∃ a, s.record? c.neighborsAt = some (.adjacency a)
  · obtain ⟨a, ha⟩ := hl
    obtain ⟨s', hrun, hkept, -⟩ := writeLink_adjacency hs.intact p target c layer a ha
    exact .inr ⟨(), s', hrun, hkept, trivial⟩
  · exact .inl (writeLink_no_adjacency hs.intact p target c layer fun a ha => hl ⟨a, ha⟩)

theorem safe_linkNeighbors (p : Params) (d : Draft) :
    ∀ s₀, (linkNeighbors p d : Turns τ Unit).Safe t G (fun _ _ => True) s₀ := by
  have hcandidate : ∀ layer l s₀,
      (linkCandidate p d layer l : Turns τ Unit).Safe t G (fun _ _ => True) s₀ := by
    intro layer l s₀
    rw [linkCandidate]
    by_cases hself : l = d.location
    · rw [if_pos hself]
      exact trivial
    · rw [if_neg hself]
      refine Turns.Safe.bind (fun found s _ => ?_) s₀ (safe_looking hG fun _ _ _ => trivial)
      cases found with
      | none => exact trivial
      | some c => exact safe_writeLink hG p d.location c layer s
  have heach : ∀ layer cs s₀,
      (linkEach p d layer cs : Turns τ Unit).Safe t G (fun _ _ => True) s₀ := by
    intro layer cs
    induction cs with
    | nil => exact fun _ => trivial
    | cons c rest ih =>
      exact fun s₀ => Turns.Safe.bind (fun _ s _ => ih s) s₀ (hcandidate layer c.location s₀)
  rw [linkNeighbors]
  induction d.level.toNat with
  | zero => exact heach 0 _
  | succ layer ih =>
    exact fun s₀ => Turns.Safe.bind (fun _ s _ => ih s) s₀ (heach (layer + 1) _ s₀)

theorem safe_mergeNeighbors (p : Params) (d : Draft) (fresh : List (List Candidate)) (s₀ : Store) :
    (Turns.act (mergeNeighbors p d fresh) : Turns τ Draft).Safe t G
      (fun e _ => e.level = d.level ∧ e.location = d.location) s₀ := by
  apply safe_kept hG
  intro s hs
  rcases mergeNeighbors_cases hs.intact p d fresh with
    hfail | ⟨a, merged, s', ha, -, hrun, hintact, hrew⟩
  · exact .inl hfail
  · exact .inr ⟨_, s', hrun, hrew.kept hintact ha, rfl, rfl⟩

theorem safe_moveCursor (id : PageId) (s₀ : Store) (hpos : 0 < id.toNat)
    (hlt : id.toNat < s₀.pages.size) :
    (Turns.act (moveCursor id) : Turns τ Unit).Safe t G (fun _ _ => True) s₀ := by
  apply safe_kept hG
  intro s hs
  obtain ⟨s', hrun, hkept, -⟩ := moveCursor_kept hs.intact id hpos (Nat.lt_of_lt_of_le hlt hs.size)
  exact .inr ⟨(), s', hrun, hkept, trivial⟩

def Promotion.rival? : Promotion → Option EntryPoint
  | .raced rival => some rival
  | _ => none

namespace Insertion

def Installs (t : Header) (G : Store → Store → Prop) (candidate : EntryPoint) : Prop :=
  ∀ s s', s.Quiet t s' → s'.entry = some candidate → G s s'

/-- What an attempt to become the entry point leads to: it is done, or the element has been stored
when there was no entry point and has to be connected through the one that it has met. -/
def Tried (d : Draft) (prior : Option EntryPoint) : Option EntryPoint → Store → Prop
  | none, s => Rises (some ⟨d.location, d.level⟩) s.entry
  | some rival, s => prior = none ∧ Rises (some rival) s.entry

theorem safe_tryPromote (d : Draft) (hP : Installs t G ⟨d.location, d.level⟩)
    (prior : Option EntryPoint) (s₀ : Store) (hpage : d.location.page ≠ noPage)
    (hprior : Rises prior s₀.entry) :
    (tryPromote d prior : Turns τ _).Safe t G (Tried d prior) s₀ := by
  rw [tryPromote]
  by_cases hrank : outranks d prior = true
  · rw [if_pos hrank]
    have hpromote : (Turns.act (promote ⟨d.location, d.level⟩ prior) : Turns τ Promotion).Safe t G
        (fun a s => Tried d prior a.rival? s) s₀ := by
      refine safe_act (fun s hs => hG s s hs (.refl hs)) fun s hs => ?_
      obtain ⟨a, s', hrun, hend⟩ := promote_cases hs.intact ⟨d.location, d.level⟩ prior hpage
      have hquiet := hend.quiet hs.intact
      have hsame : G s s := hG s s hs.intact (.refl hs.intact)
      refine .inr ⟨a, s', hrun, ?_⟩
      cases hend with
      | installed s' intact record size entry above =>
        exact ⟨⟨hquiet.toLater, hP s s' hquiet entry⟩, rises_some entry (UInt8.le_refl _)⟩
      | superseded current found high => exact ⟨⟨hquiet.toLater, hsame⟩, rises_some found high⟩
      | raced current found first =>
        exact ⟨⟨hquiet.toLater, hsame⟩, first, rises_some found (UInt8.le_refl _)⟩
    refine Turns.Safe.bind (fun a s ha => ?_) s₀ hpromote
    cases a with
    | installed => exact ha
    | superseded => exact ha
    | raced rival => exact ha
  · rw [if_neg hrank]
    cases prior with
    | none => exact absurd rfl hrank
    | some e =>
      -- The element does not stand above the entry point it was connected through.
      have hle : d.level ≤ e.level := by
        rw [outranks, decide_eq_true_iff] at hrank
        exact UInt8.not_lt.mp hrank
      exact fun x hx => by
        cases hx
        obtain ⟨f, hf, hef⟩ := hprior e rfl
        exact ⟨f, hf, UInt8.le_trans hle hef⟩

def outcome : Insertion → Outcome
  | joined l => .coalesced l
  | stored d _ _ => .inserted d.location

def Anchored (d : Draft) : Insertion → Store → Prop
  | joined _, _ => True
  | stored e prior cursor, s => e.level = d.level ∧ e.location.page ≠ noPage ∧
      (∀ id, cursor = some id → 0 < id.toNat ∧ id.toNat < s.pages.size) ∧ Rises prior s.entry

def Topped (d : Draft) : Outcome → Store → Prop
  | .inserted l, s => Rises (some ⟨l, d.level⟩) s.entry
  | _, _ => True

omit hG in
theorem rises_later {prior : Option EntryPoint} (s s' : Store) (h : s.Later t s')
    (hprior : Rises prior s.entry) : Rises prior s'.entry :=
  hprior.trans h.entry

theorem safe_linkAndPromote (p : Params) (d : Draft) (hP : Installs t G ⟨d.location, d.level⟩)
    (prior : Option EntryPoint) (s₀ : Store) (hpage : d.location.page ≠ noPage)
    (hprior : Rises prior s₀.entry) :
    (linkNeighbors p d >>= fun _ => tryPromote d prior : Turns τ _).Safe t G (Tried d prior) s₀ :=
  Turns.Safe.bind (fun _ s hs => safe_tryPromote hG d hP prior s hpage hs.2) s₀
    (Turns.Safe.frame rises_later s₀ hprior (safe_linkNeighbors hG p d s₀))

theorem safe_publish (p : Params) (d : Draft) (hP : Installs t G ⟨d.location, d.level⟩)
    (prior : Option EntryPoint) (cursor : Option PageId) (s₀ : Store)
    (hpage : d.location.page ≠ noPage)
    (hcursor : ∀ id, cursor = some id → 0 < id.toNat ∧ id.toNat < s₀.pages.size)
    (hprior : Rises prior s₀.entry) :
    (publish p d prior cursor : Turns τ _).Safe t G (Tried d prior) s₀ := by
  cases cursor with
  | none => exact safe_linkAndPromote hG p d hP prior s₀ hpage hprior
  | some id =>
    obtain ⟨hpos, hlt⟩ := hcursor id rfl
    exact Turns.Safe.bind (fun _ s hs => safe_linkAndPromote hG p d hP prior s hpage hs.2) s₀
      (Turns.Safe.frame rises_later s₀ hprior (safe_moveCursor hG id s₀ hpos hlt))

theorem safe_reconnect (p : Params) (d : Draft) (hP : Installs t G ⟨d.location, d.level⟩)
    (rival : EntryPoint) (fresh : List (List Candidate)) (s₀ : Store)
    (hpage : d.location.page ≠ noPage)
    (hrival : Rises (some rival) s₀.entry) :
    (reconnect p d rival fresh : Turns τ Unit).Safe t G
      (fun _ s => Rises (some ⟨d.location, d.level⟩) s.entry) s₀ := by
  refine Turns.Safe.bind (fun e s he => ?_) s₀
    (Turns.Safe.frame rises_later s₀ hrival (safe_mergeNeighbors hG p d fresh s₀))
  obtain ⟨⟨hlevel, hlocation⟩, hnow⟩ := he
  rw [← hlevel, ← hlocation] at hP ⊢
  show ((linkNeighbors p e >>= fun _ => tryPromote e (some rival) >>= fun _ => pure ()) :
    Turns τ Unit).Safe t G _ s
  refine Turns.Safe.bind (fun _ s' hs' => ?_) s
    (Turns.Safe.frame rises_later s hnow (safe_linkNeighbors hG p e s))
  refine Turns.Safe.bind (fun again s₂ htried => ?_) s'
    (safe_tryPromote hG e hP (some rival) s' (by rw [hlocation]; exact hpage) hs'.2)
  cases again with
  | none => exact htried
  | some other => cases htried.1

variable (p : Params) (c : Construction τ)
  (hsearch : ∀ q entry s, (Turns.once (c.search q entry)).Safe t G (fun _ _ => True) s)
  (hfind : ∀ vector lists s,
    (Turns.once (c.findDuplicate vector lists)).Safe t G (fun _ _ => True) s)
include hsearch

theorem safe_connect (d : Draft) (i : Insertion)
    (hP : ∀ l, i.outcome = .inserted l → Installs t G ⟨l, d.level⟩) (s₀ : Store)
    (hi : i.Anchored d s₀) :
    (connect p c i).Safe t G (fun o s => o = i.outcome ∧ Topped d i.outcome s) s₀ := by
  cases i with
  | joined l => exact ⟨rfl, trivial⟩
  | stored e prior cursor =>
    obtain ⟨hlevel, hpage, hcursor, hprior⟩ := hi
    have hP : Installs t G ⟨e.location, e.level⟩ := by
      rw [hlevel]
      exact hP e.location rfl
    have htopped : ∀ s, Rises (some ⟨e.location, e.level⟩) s.entry →
        Topped d (.inserted e.location) s := by
      intro s hs
      rw [hlevel] at hs
      exact hs
    refine Turns.Safe.bind (fun found s hfound => ?_) s₀
      (safe_publish hG p e hP prior cursor s₀ hpage hcursor hprior)
    cases found with
    | none => exact ⟨rfl, htopped s hfound⟩
    | some rival =>
      refine Turns.Safe.bind (fun fresh s₁ hs₁ => ?_) s
        (Turns.Safe.frame rises_later s hfound.2 (hsearch _ _ s))
      refine Turns.Safe.bind (fun _ s₂ hs₂ => ?_) s₁
        (safe_reconnect hG p e hP rival fresh s₁ hpage hs₁.2)
      exact ⟨rfl, htopped s₂ hs₂⟩

omit hG
include hfind

theorem safe_consult (d : Draft) (entry : Option EntryPoint) (s₀ : Store) :
    (consult c d entry).Safe t G
      (fun r _ => r.1.level = d.level ∧ r.1.vector = d.vector ∧ r.1.row = d.row) s₀ := by
  cases entry with
  | none => exact ⟨rfl, rfl, rfl⟩
  | some entry =>
    refine Turns.Safe.bind (fun lists s _ => ?_) s₀ (hsearch _ _ s₀)
    refine Turns.Safe.bind (fun duplicate s' _ => ?_) s (hfind _ _ s)
    exact ⟨rfl, rfl, rfl⟩

end Insertion

end

/-- How an insertion commits: a pair of records is put where there was none or a deleted one, or a
row joins a live element that has a row already and room for another one. -/
inductive Committed (t : Header) (d : Draft) : Outcome → Store → Store → Prop where
  | inserted (l k : Location) (a : Adjacency) (s s' : Store) (before : s.Intact t)
      (after : s'.Intact t) (put : PairPut s s' l k { d.element with neighborsAt := k } a) :
      Committed t d (.inserted l) s s'
  | coalesced (l : Location) (e : Element) (place : Nat) (s s' : Store) (before : s.Intact t)
      (after : s'.Intact t) (found : s.record? l = some (.element e)) (live : e.deleted = false)
      (free : e.firstFreeRow = some place) (behind : place ≠ 0)
      (puts : s.Puts s' l (e.withRow place d.row)) : Committed t d (.coalesced l) s s'

theorem Placed.later {t : Header} {s s' : Store} {d : Draft} {st : Stored}
    (h : Placed t s s' d st) (hsize : s.pages.size ≤ s'.pages.size) : s.Later t s' where
  intact := h.intact
  size := hsize
  entry := by
    rw [h.entry]
    exact .refl _

namespace Insertion

section
variable {τ : Type} {t : Header} {G : Store → Store → Prop}
  (hG : ∀ s s', s.Intact t → Store.Kept t s s' → G s s') (p : Params) (hp : p.m = t.m.toNat) (d : Draft)
include hG hp

theorem commits_store (e : Draft) (he : e.level = d.level ∧ e.vector = d.vector ∧ e.row = d.row)
    (hd : d.vector.length = t.dimensions.toNat) (entry : Option EntryPoint) (s₀ : Store)
    (hentry : Rises entry s₀.entry) :
    (store p entry e : Turns τ _).Commits t G (fun i => Committed t d i.outcome) (Anchored d) s₀ := by
  obtain ⟨hlevel, hvector, hrow⟩ := he
  have helement : e.element = d.element := by
    rw [Draft.element, Draft.element, hlevel, hvector, hrow]
  intro s own hs hb
  have hturn := Turns.act_turn (s.Later t) (fun st s' => Committed t d (.inserted st.location) s s' ∧
      Anchored d (.stored { e with location := st.location, neighborsAt := st.neighborsAt } entry
        st.cursor) s') hb (by
    rw [hp]
    rcases storePair_cases hs.intact e (by rw [hvector, hd]) with hfail | ⟨st, s', hrun, hsize, hplaced⟩
    · exact .inl ⟨hfail, .refl hs.intact⟩
    · refine .inr ⟨st, s', hrun, fun hn => ?_⟩
      have hput := hplaced hn
      have hlater := hput.later hsize
      refine ⟨hlater, ?_, hlevel, hput.intact.page_ne hput.element, hput.cursor,
        rises_later _ _ (hs.trans hlater) hentry⟩
      have hpair := hput.put
      rw [helement] at hpair
      exact .inserted st.location st.neighborsAt _ s s' hs.intact hput.intact hpair)
  refine ⟨hturn.1, fun c y hfail => ?_, fun st s' own' hrun => ?_⟩
  · rw [hturn.2.1 c y hfail]
    exact hG _ _ hs.intact (.refl hs.intact)
  · obtain ⟨hcommitted, hanchored⟩ := hturn.2.2 st s' own' hrun
    exact .inr ⟨.stored { e with location := st.location, neighborsAt := st.neighborsAt } entry
      st.cursor, hcommitted, rfl, hanchored⟩

theorem commits_settle (e : Draft) (he : e.level = d.level ∧ e.vector = d.vector ∧ e.row = d.row)
    (hd : d.vector.length = t.dimensions.toNat) (entry : Option EntryPoint)
    (duplicate : Option Location) (s₀ : Store) (hentry : Rises entry s₀.entry) :
    (settle p entry e duplicate : Turns τ _).Commits t G (fun i => Committed t d i.outcome)
      (Anchored d) s₀ := by
  cases duplicate with
  | none => exact commits_store hG p hp d e he hd entry s₀ hentry
  | some l =>
    intro s own hs hb
    have hturn := Turns.act_turn (s.Later t) (fun joined s' => match joined with
        | true => Committed t d (.coalesced l) s s'
        | false => s' = s) hb (by
      by_cases hl : ∃ f, s.record? l = some (.element f)
      · obtain ⟨f, hf⟩ := hl
        rcases attachRow_element hs.intact l e.row f hf with
          hno | ⟨place, s', hrun, hfree, hbehind, hlive, hintact, hrew⟩
        · exact .inr ⟨false, s, hno, fun _ => ⟨.refl hs.intact, rfl⟩⟩
        · refine .inr ⟨true, s', hrun, fun _ => ⟨hrew.later hintact, ?_⟩⟩
          have hputs := hrew.puts
          rw [he.2.2] at hputs
          exact .coalesced l f place s s' hs.intact hintact hf hlive hfree hbehind hputs
      · exact .inl ⟨attachRow_no_element hs.intact l e.row fun f hf => hl ⟨f, hf⟩,
          .refl hs.intact⟩)
    refine ⟨hturn.1, fun c y hfail => ?_, fun joined s' own' hrun => ?_⟩
    · rw [hturn.2.1 c y hfail]
      exact hG _ _ hs.intact (.refl hs.intact)
    · have hresult := hturn.2.2 joined s' own' hrun
      cases joined with
      | true => exact .inr ⟨.joined l, hresult, rfl, trivial⟩
      | false =>
        have hsame : s' = s := hresult
        rw [hsame]
        exact .inl ⟨hG _ _ hs.intact (.refl hs.intact), commits_store hG p hp d e he hd entry s
          (rises_later _ _ hs hentry)⟩

theorem commits_place (c : Construction τ)
    (hsearch : ∀ q entry s, (Turns.once (c.search q entry)).Safe t G (fun _ _ => True) s)
    (hfind : ∀ vector lists s,
      (Turns.once (c.findDuplicate vector lists)).Safe t G (fun _ _ => True) s)
    (hd : d.vector.length = t.dimensions.toNat) (s₀ : Store) :
    (place p c d).Commits t G (fun i => Committed t d i.outcome) (Anchored d) s₀ := by
  have hread : (Turns.act (Action.reading fun s => .ok s.entry) : Turns τ _).Safe t G
      (fun entry s => Rises entry s.entry) s₀ := by
    apply safe_looking hG
    intro s entry hentry
    rw [Except.ok.inj hentry]
    exact .refl _
  refine Turns.Safe.commits (fun entry s hentry => ?_) s₀ hread
  refine Turns.Safe.commits (fun r s' hr => ?_) s
    (Turns.Safe.frame rises_later s hentry (safe_consult c hsearch hfind d entry s))
  obtain ⟨e, duplicate⟩ := r
  exact commits_settle hG p hp d e hr.1 hd entry duplicate s' hr.2

end

end Insertion

theorem commits_insertion {τ : Type} {t : Header} {G : Store → Store → Prop}
    (hG : ∀ s s', s.Quiet t s' → G s s') (p : Params) (hp : p.m = t.m.toNat) (c : Construction τ)
    (hsearch : ∀ q entry s, (Turns.once (c.search q entry)).Safe t G (fun _ _ => True) s)
    (hfind : ∀ vector lists s,
      (Turns.once (c.findDuplicate vector lists)).Safe t G (fun _ _ => True) s)
    (d : Draft) (hd : d.vector.length = t.dimensions.toNat) (s₀ : Store) :
    (insertion p c d).Commits t G (Committed t d) (Insertion.Topped d) s₀ := by
  have hkept : ∀ s s', s.Intact t → Store.Kept t s s' → G s s' := fun s s' hs h =>
    hG s s' (h.quiet hs)
  exact Turns.Commits.bind Insertion.outcome (fun _ _ _ h => h)
    (fun i s hi => Insertion.safe_connect hkept p c hsearch d i (fun _ _ s s' h _ => hG s s' h) s hi)
    s₀ (Insertion.commits_place hkept p hp d c hsearch hfind hd s₀)

end PagedGraph
