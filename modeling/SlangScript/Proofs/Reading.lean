import SlangScript.Proofs.Grammar

/-! What a production takes from the front of the tokens, held against a rule for what it should
take. A production that fails has so far taken the beginning of something that the rule allows. -/
namespace SlangScript

/-- An opening bracket of any sort. -/
def Token.opens (t : Token) : Bool :=
  t.isBracket .openParen || t.isBracket .openBracket || t.isBracket .openBrace

/-- The number of opening brackets. -/
def openings (ts : List Token) : Nat := ts.countP Token.opens

@[simp] theorem openings_nil : openings [] = 0 := rfl

@[simp] theorem openings_cons (t : Token) (ts : List Token) :
    openings (t :: ts) = openings ts + if t.opens then 1 else 0 := List.countP_cons

@[simp] theorem openings_append (us ts : List Token) :
    openings (us ++ ts) = openings us + openings ts := List.countP_append

/-- A token of a kind, from no text. -/
def Token.ofKind (kind : TokenKind) : Token := ⟨kind, "", .origin⟩

/-- A rule relates sequences of tokens to what they stand for. -/
abbrev Rule (α : Type) := List Token → α → Prop

/-- Nothing at all, or what the rule allows. -/
def Rule.optional {α : Type} (R : Rule α) : Rule (Option α)
  | w, none => w = []
  | w, some a => R w a

/-- No condition on the tokens ahead. -/
def Anything (_ : List Token) : Prop := True

/-- The next token is there and of the sort `P`, and those behind it meet `pre`. -/
def Ahead (P : Token → Prop) (pre : List Token → Prop) (ts : List Token) : Prop :=
  ∃ t rest, ts = t :: rest ∧ P t ∧ pre rest

/-- On tokens that meet `pre`, whatever the production takes is allowed by the rule, and what it has
taken when it fails can be completed, unless `n` brackets have been opened. -/
structure Reads {α : Type} (pre : List Token → Prop) (n : Nat) (p : Production α) (R : Rule α) :
    Prop where
  sound : ∀ {ts a rest}, pre ts → p ts = .ok (a, rest) → ∃ w, ts = w ++ rest ∧ R w a
  viable : ∀ {ts f}, pre ts → p ts = .error f →
    ∃ u, ts = u ++ f.rest ∧ (openings u < n → ∃ v a, R (u ++ v) a)
  inhabited : 0 < n → ∃ w a, R w a

namespace Production
variable {α β : Type} {n : Nat} {p : Production α} {f : α → Production β} {ts rest : List Token}

theorem run_bind {a : α} (h : p ts = .ok (a, rest)) : (p >>= f) ts = f a rest := by
  simp only [bind, Production.bind, h]

theorem bind_eq_ok {b : β} : (p >>= f) ts = .ok (b, rest) ↔
    ∃ a mid, p ts = .ok (a, mid) ∧ f a mid = .ok (b, rest) := by
  cases h : p ts with
  | error e => simp [bind, Production.bind, h]
  | ok r =>
    simp only [bind, Production.bind, h]
    exact ⟨fun hb => ⟨_, _, rfl, hb⟩, by rintro ⟨_, _, he, hb⟩; cases he; exact hb⟩

theorem bind_eq_error {e : Failure} : (p >>= f) ts = .error e ↔
    p ts = .error e ∨ ∃ a mid, p ts = .ok (a, mid) ∧ f a mid = .error e := by
  cases h : p ts with
  | error e => simp [bind, Production.bind, h]
  | ok r =>
    simp only [bind, Production.bind, h, reduceCtorEq, false_or]
    exact ⟨fun hb => ⟨_, _, rfl, hb⟩, by rintro ⟨_, _, he, hb⟩; cases he; exact hb⟩

theorem pure_eq_ok {a b : α} : (pure a : Production α) ts = .ok (b, rest) ↔ b = a ∧ rest = ts := by
  simp [pure, Production.pure, eq_comm]

theorem run_pure (a : α) (ts : List Token) : (pure a : Production α) ts = .ok (a, ts) := rfl

theorem run_look (g : List Token → α) (f : α → Production β) (ts : List Token) :
    (look g >>= f) ts = f (g ts) ts := rfl

theorem run_skip (t : Token) (ts : List Token) (f : Unit → Production β) :
    (skip >>= f) (t :: ts) = f () ts := rfl

theorem expect_eq_ok {kind : TokenKind} {t : Token} :
    expect kind ts = .ok (t, rest) ↔ ts = t :: rest ∧ t.kind = kind := by
  cases ts with
  | nil => simp [expect]
  | cons x ts =>
    by_cases hx : x.kind = kind
    · simp only [expect, hx, ↓reduceIte, Except.ok.injEq, Prod.mk.injEq, List.cons.injEq]
      constructor
      · rintro ⟨rfl, rfl⟩; exact ⟨⟨rfl, rfl⟩, hx⟩
      · rintro ⟨h, -⟩; exact h
    · simp only [expect, hx, ↓reduceIte, reduceCtorEq, List.cons.injEq, false_iff]
      rintro ⟨⟨rfl, -⟩, h⟩; exact hx h

theorem expect_eq_error {kind : TokenKind} {e : Failure} (h : expect kind ts = .error e) :
    e.rest = ts := by
  cases ts with
  | nil => cases h; rfl
  | cons t ts =>
    rw [expect] at h
    split at h
    · cases h
    · cases h; rfl

theorem accept?_cases (recognise : Token → Option α) (ts : List Token) :
    accept? recognise ts = .ok (none, ts) ∨
      ∃ t a rest, ts = t :: rest ∧ recognise t = some a ∧
        accept? recognise ts = .ok (some a, rest) := by
  cases ts with
  | nil => exact .inl rfl
  | cons t rest =>
    cases h : recognise t with
    | none => exact .inl (by rw [accept?, h])
    | some a => exact .inr ⟨t, a, rest, rfl, h, by rw [accept?, h]⟩

theorem skipIf_eq_accept? (kind : TokenKind) (k : Bool → Production β) (ts : List Token) :
    (skipIf kind >>= k) ts =
      (accept? (fun t => if t.kind = kind then some () else none) >>= fun o => k o.isSome) ts := by
  cases ts with
  | nil => rfl
  | cons t ts => by_cases h : t.kind = kind <;> simp [bind, Production.bind, skipIf, accept?, h]

end Production

namespace Reads
variable {α β : Type} {n : Nat} {pre pre' : List Token → Prop} {p q : Production α}
  {f : α → Production β} {R S : Rule α} {T : α → Rule β}

theorem mono (h : Reads pre n p R) (hR : ∀ w a, R w a → S w a) : Reads pre n p S where
  sound hp h' := by
    obtain ⟨w, rfl, hw⟩ := h.sound hp h'
    exact ⟨w, rfl, hR w _ hw⟩
  viable hp h' := by
    obtain ⟨u, rfl, hu⟩ := h.viable hp h'
    refine ⟨u, rfl, fun hn => ?_⟩
    obtain ⟨v, a, hv⟩ := hu hn
    exact ⟨v, a, hR _ _ hv⟩
  inhabited hn := by
    obtain ⟨w, a, hw⟩ := h.inhabited hn
    exact ⟨w, a, hR w a hw⟩

theorem restrict (h : Reads pre n p R) (hpre : ∀ ts, pre' ts → pre ts) : Reads pre' n p R where
  sound hp := h.sound (hpre _ hp)
  viable hp := h.viable (hpre _ hp)
  inhabited := h.inhabited

theorem congr (h : Reads pre n p R) (hq : ∀ ts, pre ts → q ts = p ts) : Reads pre n q R where
  sound hp h' := h.sound hp (hq _ hp ▸ h')
  viable hp h' := h.viable hp (hq _ hp ▸ h')
  inhabited := h.inhabited

theorem pure (a : α) : Reads pre n (Pure.pure a) (fun w b => w = [] ∧ b = a) where
  sound _ h := by
    obtain ⟨rfl, rfl⟩ := Production.pure_eq_ok.mp h
    exact ⟨[], rfl, rfl, rfl⟩
  viable _ h := by cases h
  inhabited _ := ⟨[], a, rfl, rfl⟩

theorem nothing : Reads pre n (Pure.pure none) R.optional := by
  refine (pure none).mono ?_
  rintro w _ ⟨rfl, rfl⟩
  rfl

theorem fail {m : Mismatch} (h : 0 < n → ∃ w a, R w a) : Reads pre n (Production.fail m) R where
  sound _ h' := by cases h'
  viable {ts f} _ h' := by
    cases h'
    exact ⟨[], rfl, fun hn => h (by omega)⟩
  inhabited := h

/-- One production after another: a failure of the first is completed by some reading of the second,
and a failure of the second comes behind a complete reading of the first. -/
theorem bind (hp : Reads pre n p R) (hf : ∀ a, Reads Anything n (f a) (T a)) :
    Reads pre n (p >>= f) (fun w b => ∃ a u v, w = u ++ v ∧ R u a ∧ T a v b) where
  sound h₀ h := by
    obtain ⟨a, mid, ha, hb⟩ := Production.bind_eq_ok.mp h
    obtain ⟨u, rfl, hu⟩ := hp.sound h₀ ha
    obtain ⟨v, rfl, hv⟩ := (hf a).sound trivial hb
    exact ⟨u ++ v, by simp, a, u, v, rfl, hu, hv⟩
  viable h₀ h := by
    rcases Production.bind_eq_error.mp h with h | ⟨a, mid, ha, hb⟩
    · obtain ⟨u, rfl, hu⟩ := hp.viable h₀ h
      refine ⟨u, rfl, fun hn => ?_⟩
      obtain ⟨v, a, hv⟩ := hu hn
      obtain ⟨w, b, hw⟩ := (hf a).inhabited (by omega)
      exact ⟨v ++ w, b, a, u ++ v, w, by simp, hv, hw⟩
    · obtain ⟨u, rfl, hu⟩ := hp.sound h₀ ha
      obtain ⟨v, rfl, hv⟩ := (hf a).viable trivial hb
      refine ⟨u ++ v, by simp, fun hn => ?_⟩
      obtain ⟨w, b, hw⟩ := hv (by simp only [openings_append] at hn; omega)
      exact ⟨w, b, a, u, v ++ w, by simp, hu, hw⟩
  inhabited hn := by
    obtain ⟨u, a, hu⟩ := hp.inhabited hn
    obtain ⟨v, b, hv⟩ := (hf a).inhabited hn
    exact ⟨u ++ v, b, a, u, v, rfl, hu, hv⟩

theorem expect {kind : TokenKind} {k : Token → Production β} {T : Token → Rule β}
    (hk : ∀ t, Reads Anything n (k t) (T t)) :
    Reads pre n (Production.expect kind >>= k)
      (fun w b => ∃ t v, w = t :: v ∧ t.kind = kind ∧ T t v b) where
  sound _ h := by
    obtain ⟨t, mid, hx, hb⟩ := Production.bind_eq_ok.mp h
    obtain ⟨rfl, ht⟩ := Production.expect_eq_ok.mp hx
    obtain ⟨v, rfl, hv⟩ := (hk t).sound trivial hb
    exact ⟨t :: v, rfl, t, v, rfl, ht, hv⟩
  viable _ h := by
    rcases Production.bind_eq_error.mp h with h | ⟨t, mid, hx, hb⟩
    · obtain rfl := Production.expect_eq_error h
      refine ⟨[], rfl, fun hn => ?_⟩
      obtain ⟨v, b, hv⟩ := (hk (.ofKind kind)).inhabited (by omega)
      exact ⟨_, b, _, v, rfl, rfl, hv⟩
    · obtain ⟨rfl, ht⟩ := Production.expect_eq_ok.mp hx
      obtain ⟨u, rfl, hu⟩ := (hk t).viable trivial hb
      refine ⟨t :: u, rfl, fun hn => ?_⟩
      obtain ⟨v, b, hv⟩ := hu (by simp only [openings_cons] at hn; omega)
      exact ⟨v, b, t, u ++ v, rfl, ht, hv⟩
  inhabited hn := by
    obtain ⟨v, b, hv⟩ := (hk (.ofKind kind)).inhabited hn
    exact ⟨_, b, _, v, rfl, rfl, hv⟩

theorem skip {P : Token → Prop} {k : Unit → Production β} {S : Rule β} (hP : ∃ t, P t)
    (hk : Reads pre n (k ()) S) :
    Reads (Ahead P pre) n (Production.skip >>= k)
      (fun w b => ∃ t v, w = t :: v ∧ P t ∧ S v b) where
  sound h₀ h := by
    obtain ⟨t, ts, rfl, ht, h₀⟩ := h₀
    obtain ⟨v, rfl, hv⟩ := hk.sound h₀ h
    exact ⟨t :: v, rfl, t, v, rfl, ht, hv⟩
  viable h₀ h := by
    obtain ⟨t, ts, rfl, ht, h₀⟩ := h₀
    obtain ⟨u, rfl, hu⟩ := hk.viable h₀ h
    refine ⟨t :: u, rfl, fun hn => ?_⟩
    obtain ⟨v, b, hv⟩ := hu (by simp only [openings_cons] at hn; omega)
    exact ⟨v, b, t, u ++ v, rfl, ht, hv⟩
  inhabited hn := by
    obtain ⟨t, ht⟩ := hP
    obtain ⟨v, b, hv⟩ := hk.inhabited hn
    exact ⟨_, b, t, v, rfl, ht, hv⟩

theorem accept? {recognise : Token → Option α} {k : Option α → Production β} {S : Rule β}
    (hnone : Reads Anything n (k none) S) (hsome : ∀ a, Reads Anything n (k (some a)) (T a)) :
    Reads pre n (Production.accept? recognise >>= k)
      (fun w b => S w b ∨ ∃ t a v, w = t :: v ∧ recognise t = some a ∧ T a v b) where
  sound {ts b rest} _ h := by
    rcases Production.accept?_cases recognise ts with hr | ⟨t, a, ts, rfl, ha, hr⟩
    · rw [Production.run_bind hr] at h
      obtain ⟨v, rfl, hv⟩ := hnone.sound trivial h
      exact ⟨v, rfl, .inl hv⟩
    · rw [Production.run_bind hr] at h
      obtain ⟨v, rfl, hv⟩ := (hsome a).sound trivial h
      exact ⟨t :: v, rfl, .inr ⟨t, a, v, rfl, ha, hv⟩⟩
  viable {ts f} _ h := by
    rcases Production.accept?_cases recognise ts with hr | ⟨t, a, ts, rfl, ha, hr⟩
    · rw [Production.run_bind hr] at h
      obtain ⟨u, rfl, hu⟩ := hnone.viable trivial h
      refine ⟨u, rfl, fun hn => ?_⟩
      obtain ⟨v, b, hv⟩ := hu hn
      exact ⟨v, b, .inl hv⟩
    · rw [Production.run_bind hr] at h
      obtain ⟨u, rfl, hu⟩ := (hsome a).viable trivial h
      refine ⟨t :: u, rfl, fun hn => ?_⟩
      obtain ⟨v, b, hv⟩ := hu (by simp only [openings_cons] at hn; omega)
      exact ⟨v, b, .inr ⟨t, a, u ++ v, rfl, ha, hv⟩⟩
  inhabited hn := by
    obtain ⟨w, b, hw⟩ := hnone.inhabited hn
    exact ⟨w, b, .inl hw⟩

theorem skipIf {kind : TokenKind} {k : Bool → Production β} {S T : Rule β}
    (hfalse : Reads Anything n (k false) S) (htrue : Reads Anything n (k true) T) :
    Reads pre n (Production.skipIf kind >>= k)
      (fun w b => S w b ∨ ∃ t v, w = t :: v ∧ t.kind = kind ∧ T v b) := by
  have h : Reads pre n (Production.accept? (fun t : Token => if t.kind = kind then some () else none)
      >>= fun found => k found.isSome) _ := accept? (T := fun _ => T) hfalse fun _ => htrue
  refine (h.congr fun ts _ => Production.skipIf_eq_accept? kind k ts).mono ?_
  rintro w b (hw | ⟨t, _, v, rfl, ht, hv⟩)
  · exact .inl hw
  · exact .inr ⟨t, v, rfl, by simpa using ht, hv⟩

/-- What lies ahead may be told before it is read. -/
theorem look {γ : Type} {g : List Token → γ} {k : γ → Production α}
    (h : ∀ c, Reads (fun ts => pre ts ∧ g ts = c) n (k c) R) :
    Reads pre n (Production.look g >>= k) R where
  sound h₀ h' := (h _).sound ⟨h₀, rfl⟩ h'
  viable h₀ h' := (h _).viable ⟨h₀, rfl⟩ h'
  inhabited := (h (g [])).inhabited

/-- Behind an opening bracket one bracket less may be opened. -/
theorem opening {kind : TokenKind} {k : Token → Production β} {S : Rule β}
    (ho : (Token.ofKind kind).opens = true)
    (hk : ∀ t, Reads Anything n (k t) S) (hS : ∃ w b, S w b) :
    Reads pre (n + 1) (Production.expect kind >>= k)
      (fun w b => ∃ t v, w = t :: v ∧ t.kind = kind ∧ S v b) where
  sound h₀ h := (expect hk).sound h₀ h
  viable _ h := by
    obtain ⟨w, b, hw⟩ := hS
    rcases Production.bind_eq_error.mp h with h | ⟨t, mid, hx, hb⟩
    · obtain rfl := Production.expect_eq_error h
      exact ⟨[], rfl, fun _ => ⟨_, b, .ofKind kind, w, rfl, rfl, hw⟩⟩
    · obtain ⟨rfl, ht⟩ := Production.expect_eq_ok.mp hx
      obtain ⟨u, rfl, hu⟩ := (hk t).viable trivial hb
      refine ⟨t :: u, rfl, fun hn => ?_⟩
      have hto : t.opens = true := by rw [← ho, ← ht]; rfl
      obtain ⟨v, b, hv⟩ := hu (by simp only [openings_cons, hto, if_true] at hn; omega)
      exact ⟨v, b, t, u ++ v, rfl, ht, hv⟩
  inhabited _ := by
    obtain ⟨w, b, hw⟩ := hS
    exact ⟨_, b, .ofKind kind, w, rfl, rfl, hw⟩

section Repetition
variable {round : Production (Option α)} {Q : Rule (Option α)} {M : Rule (List α)}

/-- The pieces that a repetition is made of: those that rounds yield, and one that ends it. -/
structure Piecewise (Q : Rule (Option α)) (M : Rule (List α)) : Prop where
  stop : ∀ w, Q w none → M w []
  step : ∀ {u v a as}, Q u (some a) → M v as → M (u ++ v) (a :: as)
  progress : ∀ a, ¬ Q [] (some a)
  empty : Q [] none

/-- Pieces of which the last one is empty. -/
theorem Piecewise.ofOptional (stop : M [] [])
    (step : ∀ {u v a as}, R u a → M v as → M (u ++ v) (a :: as)) (progress : ∀ a, ¬ R [] a) :
    Piecewise R.optional M where
  stop w hw := by
    obtain rfl : w = [] := hw
    exact stop
  step := step
  progress := progress
  empty := rfl

theorem gather_ok (h : Reads Anything n round Q) (hQ : Piecewise Q M) {ts rest : List Token}
    {items : List α} (hg : Production.gather round ts = (items, .ok rest)) :
    ∃ w, ts = w ++ rest ∧ M w items := by
  induction ts using Production.gather.induct round generalizing items with
  | case1 ts e he => rw [Production.gather, he] at hg; cases hg
  | case2 ts mid hr =>
    rw [Production.gather, hr] at hg
    cases hg
    obtain ⟨w, rfl, hw⟩ := h.sound trivial hr
    exact ⟨w, rfl, hQ.stop w hw⟩
  | case3 ts a mid hr hlt more stop hm ih =>
    rw [Production.gather, hr] at hg
    simp only [hlt, ↓reduceIte, hm] at hg
    cases hg
    obtain ⟨u, rfl, hu⟩ := h.sound trivial hr
    obtain ⟨v, rfl, hv⟩ := ih hm
    exact ⟨u ++ v, by simp, hQ.step hu hv⟩
  | case4 ts a mid hr hlt =>
    obtain ⟨u, rfl, hu⟩ := h.sound trivial hr
    cases u with
    | nil => exact absurd hu (hQ.progress a)
    | cons t u =>
      refine absurd ?_ hlt
      simp only [List.cons_append, List.length_cons, List.length_append]
      omega

/-- Where a round fails, the pieces before it stand, and its own piece can be completed. -/
theorem gather_error (h : Reads Anything n round Q) (hQ : Piecewise Q M) {ts : List Token}
    {f : Failure} {items : List α} (hg : Production.gather round ts = (items, .error f)) :
    ∃ w u, ts = w ++ (u ++ f.rest) ∧ (∀ v as, M v as → M (w ++ v) (items ++ as)) ∧
      (openings u < n → ∃ v o, Q (u ++ v) o) := by
  induction ts using Production.gather.induct round generalizing items with
  | case1 ts e he =>
    rw [Production.gather, he] at hg
    cases hg
    obtain ⟨u, rfl, hu⟩ := h.viable trivial he
    exact ⟨[], u, rfl, fun v as hv => hv, hu⟩
  | case2 ts mid hr => rw [Production.gather, hr] at hg; cases hg
  | case3 ts a mid hr hlt more stop hm ih =>
    rw [Production.gather, hr] at hg
    simp only [hlt, ↓reduceIte, hm] at hg
    cases hg
    obtain ⟨x, rfl, hx⟩ := h.sound trivial hr
    obtain ⟨w, u, rfl, hw, hu⟩ := ih hm
    refine ⟨x ++ w, u, by simp, fun v as hv => ?_, hu⟩
    rw [List.append_assoc]
    exact hQ.step hx (hw v as hv)
  | case4 ts a mid hr hlt =>
    rw [Production.gather, hr] at hg
    simp only [hlt, ↓reduceIte] at hg
    cases hg

theorem many (h : Reads Anything n round Q) (hQ : Piecewise Q M) :
    Reads pre n (Production.many round) M where
  sound _ hm := by
    rw [Production.many] at hm
    split at hm
    · cases hm; exact h.gather_ok hQ ‹_›
    · cases hm
  viable _ hm := by
    rw [Production.many] at hm
    split at hm
    · cases hm
    · cases hm
      obtain ⟨w, u, rfl, hw, hu⟩ := h.gather_error hQ ‹_›
      refine ⟨w ++ u, by simp, fun hn => ?_⟩
      obtain ⟨v, o, hv⟩ := hu (by simp only [openings_append] at hn; omega)
      refine ⟨v, ?_⟩
      rw [List.append_assoc]
      cases o with
      | none => exact ⟨_, hw _ _ (hQ.stop _ hv)⟩
      | some a => exact ⟨_, hw _ _ (by simpa using hQ.step hv (hQ.stop _ hQ.empty))⟩
  inhabited _ := ⟨[], [], hQ.stop [] hQ.empty⟩

end Repetition

end Reads

end SlangScript
