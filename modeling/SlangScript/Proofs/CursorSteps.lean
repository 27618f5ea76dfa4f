import Mathlib.Order.Filter.AtTopBot.Basic
import SlangScript.Proofs.Cursor
import SlangScript.Proofs.Lookahead

/-! The cursor goes where the productions go: what they leave is what it has not read, and where they fail
one error is recorded. -/
namespace SlangScript

namespace Cursor

/-- The tokens not yet read. -/
def remaining (c : Cursor) : List Token := c.stream.remaining

/-- The cursor in front of the last tokens of its stream. -/
def moveTo (c : Cursor) (rest : List Token) : Cursor :=
  { c with stream := { c.stream with position := c.stream.tokens.length - rest.length } }

/-- The cursor with one more error, noticed where it stands. -/
def record (c : Cursor) (message : String) : Cursor :=
  { c with errors := c.errors ++ [⟨c.stream.position, message⟩] }

/-- The cursor stands in its stream, and so many levels may still be opened. -/
structure At (c : Cursor) (room : Nat) : Prop where
  inside : c.stream.position ≤ c.stream.tokens.length
  depth : c.depth + room = maxNesting

variable {c : Cursor} {room : Nat} {t : Token} {rest ts : List Token}

theorem moveTo_moveTo (c : Cursor) (us vs : List Token) : (c.moveTo us).moveTo vs = c.moveTo vs := rfl

theorem At.length_remaining (h : c.At room) :
    c.remaining.length + c.stream.position = c.stream.tokens.length := by
  have := h.inside
  simp only [remaining, TokenStream.remaining, List.length_drop]
  omega

theorem moveTo_remaining (h : c.At room) : c.moveTo c.remaining = c := by
  have := h.length_remaining
  have hposition : c.stream.tokens.length - c.remaining.length = c.stream.position := by omega
  rw [moveTo, hposition]

theorem remaining_moveTo (hrest : rest <:+ c.remaining) : (c.moveTo rest).remaining = rest :=
  (List.suffix_iff_eq_drop.mp (hrest.trans (List.drop_suffix _ _))).symm

theorem any_isWord_of_next {word : String} (h : Next (fun t => t.isWord word = false) ts) :
    ts.head?.any (·.isWord word) = false := by
  rw [Option.any_eq_false]
  simpa [Next] using h

theorem At.moveTo (h : c.At room) (rest : List Token) : (c.moveTo rest).At room :=
  ⟨Nat.sub_le _ _, h.depth⟩

theorem current?_eq (c : Cursor) : c.stream.current? = c.remaining.head? := by
  simp [remaining, TokenStream.remaining, TokenStream.current?, TokenStream.peek?, List.head?_drop]

end Cursor

/-- Whether the complaint is that no statement begins with the tokens ahead. -/
def Mismatch.isStatement : Mismatch → Bool
  | .statement _ => true
  | _ => false

/-- The walk ends with this result and this cursor, however deep calls may go, once they may go deep
enough. -/
def Yields {α : Type} (m : Nat → Walk α) (c : Cursor) (a : α) (d : Cursor) : Prop :=
  ∀ᶠ n in Filter.atTop, m n c = some (a, d)

/-- The walk ends where the production ends. Where that fails, one error is recorded, which is never that
no statement begins there. -/
def Follows {α : Type} (m : Nat → Walk (Option α)) (p : Production α) (c : Cursor) : Prop :=
  match p c.remaining with
  | .ok (a, rest) => rest <:+ c.remaining ∧ Yields m c (some a) (c.moveTo rest)
  | .error f => f.rest <:+ c.remaining ∧ f.mismatch.isStatement = false ∧
      Yields m c none ((c.moveTo f.rest).record f.mismatch.message)

/-- The walk follows the production wherever so many levels may still be opened. -/
def Traces {α : Type} (room : Nat) (m : Nat → Walk (Option α)) (p : Production α) : Prop :=
  ∀ c : Cursor, c.At room → Follows m p c

theorem Walk.run_bind {α β : Type} {m : Walk α} {c d : Cursor} {a : α} (h : m c = some (a, d))
    (k : α → Walk β) : (m >>= k) c = k a d := by
  simp only [Bind.bind, StateT.bind, h, Option.bind]

open Cursor

namespace Yields
variable {α β : Type} {m l : Nat → Walk α} {k : Nat → α → Walk β} {c d e : Cursor} {a : α} {b : β}

theorem of_forall (h : ∀ n, m n c = some (a, d)) : Yields m c a d :=
  Filter.Eventually.of_forall h

theorem congr (h : Yields l e a d) (hm : ∀ n, m n c = l n e) : Yields m c a d :=
  h.mono fun n hn => (hm n).trans hn

theorem bind (h : Yields m c a d) (hk : Yields (fun n => k n a) d b e) :
    Yields (fun n => m n >>= k n) c b e :=
  (h.and hk).mono fun _ hn => (Walk.run_bind hn.1 _).trans hn.2

/-- A production that calls others ends where these end, one call less deep. -/
theorem unfold (h : Yields l c a d) (hm : ∀ n, m (n + 1) = l n) : Yields m c a d := by
  have hshift : ∀ᶠ n in Filter.map (· + 1) Filter.atTop, m n c = some (a, d) :=
    h.mono fun n hn => (congrFun (hm n) c).trans hn
  rwa [Filter.map_add_atTop_eq_nat] at hshift

theorem unique {a' : α} (h : Yields m c a d) (h' : Yields m c a' e) : a = a' ∧ d = e := by
  obtain ⟨n, hn, hn'⟩ := (h.and h').exists
  exact Prod.mk.inj (Option.some.inj (hn.symm.trans hn'))

end Yields

namespace Follows
variable {α β : Type} {room : Nat} {c : Cursor} {m n : Nat → Walk (Option α)} {p q : Production α}
  {k : Nat → Option α → Walk (Option β)} {f : α → Production β} {t : Token} {ts : List Token}

theorem of_ok {a : α} {rest : List Token} (hp : p c.remaining = .ok (a, rest))
    (hrest : rest <:+ c.remaining) (hm : Yields m c (some a) (c.moveTo rest)) : Follows m p c := by
  rw [Follows, hp]
  exact ⟨hrest, hm⟩

theorem of_error {e : Failure} (hp : p c.remaining = .error e) (hrest : e.rest <:+ c.remaining)
    (he : e.mismatch.isStatement = false)
    (hm : Yields m c none ((c.moveTo e.rest).record e.mismatch.message)) : Follows m p c := by
  rw [Follows, hp]
  exact ⟨hrest, he, hm⟩

theorem fail {mismatch : Mismatch} (hc : c.At room) (hmismatch : mismatch.isStatement = false)
    (h : ∀ n, m n c = some (none, c.record mismatch.message)) :
    Follows m (Production.fail mismatch : Production α) c :=
  of_error rfl (List.suffix_refl _) hmismatch (by rw [moveTo_remaining hc]; exact .of_forall h)

theorem suffix {a : α} {rest : List Token} (h : Follows m p c) (hp : p c.remaining = .ok (a, rest)) :
    rest <:+ c.remaining := by
  rw [Follows, hp] at h
  exact h.1

/-- What both have read may be left out. -/
theorem onward {rest : List Token} (h : Follows n q (c.moveTo rest)) (hrest : rest <:+ c.remaining)
    (hm : ∀ {r d}, Yields n (c.moveTo rest) r d → Yields m c r d) (hp : p c.remaining = q rest) :
    Follows m p c := by
  rw [Follows, remaining_moveTo hrest] at h
  rw [Follows, hp]
  cases hq : q rest with
  | ok r =>
    rw [hq] at h
    exact ⟨h.1.trans hrest, hm h.2⟩
  | error e =>
    rw [hq] at h
    exact ⟨h.1.trans hrest, h.2.1, hm h.2.2⟩

/-- What both do without moving on may be left out. -/
theorem congr (h : Follows n q c) (hm : ∀ i, m i c = n i c) (hp : p c.remaining = q c.remaining) :
    Follows m p c := by
  rw [Follows] at h ⊢
  rw [hp]
  cases hq : q c.remaining with
  | ok r =>
    rw [hq] at h
    exact ⟨h.1, h.2.congr hm⟩
  | error e =>
    rw [hq] at h
    exact ⟨h.1, h.2.1, h.2.2.congr hm⟩

theorem step (h : Follows n q (c.moveTo ts)) (hc : c.remaining = t :: ts)
    (hm : ∀ i, m i c = n i (c.moveTo ts)) (hp : p (t :: ts) = q ts) : Follows m p c :=
  h.onward (hc ▸ List.suffix_cons t ts) (fun hd => hd.congr hm) (by rw [hc, hp])

theorem bind (h : Follows m p c) (hnone : ∀ i, k i none = pure none)
    (hk : ∀ a rest, p c.remaining = .ok (a, rest) → rest <:+ c.remaining →
      Follows (fun i => k i (some a)) (f a) (c.moveTo rest)) :
    Follows (fun i => m i >>= k i) (p >>= f) c := by
  rw [Follows] at h
  cases hp : p c.remaining with
  | ok r =>
    obtain ⟨a, rest⟩ := r
    rw [hp] at h
    exact (hk a rest hp h.1).onward h.1 h.2.bind (Production.run_bind hp)
  | error e =>
    rw [hp] at h
    refine of_error (Production.bind_eq_error.mpr (.inl hp)) h.1 h.2.1 (h.2.2.bind ?_)
    exact .of_forall fun i => congrFun (hnone i) _

theorem pure (hc : c.At room) (a : α) : Follows (fun _ => Pure.pure (some a)) (Pure.pure a) c :=
  of_ok rfl (List.suffix_refl _) (by rw [moveTo_remaining hc]; exact .of_forall fun _ => rfl)

theorem unfold (h : Follows n p c) (hm : ∀ i, m (i + 1) = n i) : Follows m p c := by
  rw [Follows] at h ⊢
  cases hp : p c.remaining with
  | ok r =>
    rw [hp] at h
    exact ⟨h.1, h.2.unfold hm⟩
  | error e =>
    rw [hp] at h
    exact ⟨h.1, h.2.1, h.2.2.unfold hm⟩

end Follows

namespace Traces
variable {α β : Type} {room : Nat} {m n : Nat → Walk (Option α)} {p : Production α}
  {k : Nat → Option α → Walk (Option β)} {f : α → Production β}

theorem follows {c : Cursor} (h : Traces room m p) (hc : c.At room) : Follows m p c := h c hc

theorem bind (h : Traces room m p) (hnone : ∀ i, k i none = pure none)
    (hk : ∀ a, Traces room (fun i => k i (some a)) (f a)) :
    Traces room (fun i => m i >>= k i) (p >>= f) :=
  fun c hc => (h c hc).bind hnone fun a rest _ _ => hk a _ (hc.moveTo rest)

theorem pure (a : α) : Traces room (fun _ => Pure.pure (some a)) (Pure.pure a) :=
  fun _ hc => .pure hc a

theorem unfold (h : Traces room n p) (hm : ∀ i, m (i + 1) = n i) : Traces room m p :=
  fun c hc => (h c hc).unfold hm

end Traces

namespace Walk
variable {α β γ : Type} {room : Nat} {c : Cursor} {t : Token} {ts : List Token}

theorem run_current (k : Option Token → Walk β) (c : Cursor) :
    (current >>= k) c = k c.remaining.head? c := by
  rw [← current?_eq]
  rfl

theorem run_advance (hc : c.remaining = t :: ts) (k : Option Token → Walk β) :
    (advance >>= k) c = k (some t) (c.moveTo ts) := by
  have hcurrent : c.stream.current? = some t := by rw [current?_eq, hc]; rfl
  have hlength : c.stream.tokens.length - c.stream.position = ts.length + 1 := by
    rw [← List.length_drop]
    exact congrArg List.length hc
  have hposition : c.stream.tokens.length - ts.length = c.stream.position + 1 := by omega
  have hadvance : c.stream.advance = (some t, (c.moveTo ts).stream) := by
    rw [TokenStream.advance, hcurrent, moveTo, hposition]
  refine run_bind ?_ k
  rw [advance, hadvance]
  rfl

theorem run_advance_end (hc : c.remaining = []) (k : Option Token → Walk β) :
    (advance >>= k) c = k none c := by
  have hcurrent : c.stream.current? = none := by rw [current?_eq, hc]; rfl
  refine run_bind ?_ k
  rw [advance, TokenStream.advance, hcurrent]

theorem run_checkKind (kind : TokenKind) (k : Bool → Walk β) (c : Cursor) :
    (checkKind kind >>= k) c = k (c.remaining.head?.any (·.kind = kind)) c := by
  rw [← current?_eq]
  rfl

theorem run_checkWord (word : String) (k : Bool → Walk β) (c : Cursor) :
    (checkWord word >>= k) c = k (c.remaining.head?.any (·.isWord word)) c := by
  rw [← current?_eq]
  rfl

theorem run_currentOperator (k : Option Operator → Walk β) (c : Cursor) :
    (currentOperator >>= k) c = k (c.remaining.head?.bind (·.operator?)) c := by
  rw [← current?_eq]
  rfl

theorem run_peekIsAssign (hc : c.remaining = t :: ts) (k : Bool → Walk β) :
    (peekIsAssign 1 >>= k) c = k (ts.head?.any (·.operator? = some .assign)) c := by
  have hpeek : c.stream.peek? 1 = ts.head? := by
    rw [TokenStream.peek?, ← List.getElem?_drop, List.head?_eq_getElem?]
    exact congrArg (·[1]?) hc
  rw [← hpeek]
  rfl

theorem run_skipDelimiter (hc : c.remaining = t :: ts) {d : Delimiter} (ht : t.kind = .delimiter d)
    (k : Bool → Walk β) : (skipDelimiter d >>= k) c = k true (c.moveTo ts) := by
  have hd : c.remaining.head?.any (·.kind = .delimiter d) = true := by simp [hc, ht]
  rw [skipDelimiter, bind_assoc, run_checkKind, hd, if_pos rfl, bind_assoc, run_advance hc, pure_bind]

theorem run_skipDelimiter_not {d : Delimiter} (h : Next (·.kind ≠ .delimiter d) c.remaining)
    (k : Bool → Walk β) : (skipDelimiter d >>= k) c = k false c := by
  have hd : c.remaining.head?.any (·.kind = .delimiter d) = false := by
    rw [Option.any_eq_false]
    simpa [Next] using h
  rw [skipDelimiter, bind_assoc, run_checkKind, hd, if_neg (by decide), pure_bind]

section Expect
variable {expected : String} {accepts : Token → Bool}

theorem expect_taken (hc : c.remaining = t :: ts) (ht : accepts t = true) :
    expect expected accepts c = some (some t, c.moveTo ts) := by
  rw [expect, run_current, hc]
  simp only [List.head?_cons, ht, ↓reduceIte]
  rw [run_advance hc]
  rfl

theorem expect_refused (hc : c.remaining = t :: ts) (ht : accepts t = false) :
    expect expected accepts c =
      some (none, c.record s!"Expected {expected}, got {t.display}") := by
  rw [expect, run_current, hc]
  simp only [List.head?_cons, ht, Bool.false_eq_true, ↓reduceIte]
  rfl

theorem expect_end (hc : c.remaining = []) : expect expected accepts c =
    some (none, c.record s!"Unexpected end of tokens. Expected {expected}") := by
  rw [expect, run_current, hc]
  rfl

end Expect

end Walk

namespace Follows
open Walk
variable {β : Type} {c : Cursor} {p : Production β}

theorem current {k : Nat → Option Token → Walk (Option β)}
    (h : Follows (fun i => k i c.remaining.head?) p c) :
    Follows (fun i => Walk.current >>= k i) p c := h.congr (fun i => run_current (k i) c) rfl

theorem peekIsAssign {k : Nat → Bool → Walk (Option β)} {t : Token} {ts : List Token}
    (hts : c.remaining = t :: ts)
    (h : Follows (fun i => k i (ts.head?.any (·.operator? = some .assign))) p c) :
    Follows (fun i => Walk.peekIsAssign 1 >>= k i) p c :=
  h.congr (fun i => run_peekIsAssign hts (k i)) rfl

theorem checkWord {word : String} {k : Nat → Bool → Walk (Option β)}
    (h : Follows (fun i => k i (c.remaining.head?.any (·.isWord word))) p c) :
    Follows (fun i => Walk.checkWord word >>= k i) p c :=
  h.congr (fun i => run_checkWord word (k i) c) rfl

end Follows

namespace Traces
open Walk
variable {α β : Type} {room : Nat} {k : Nat → Option α → Walk (Option β)} {f : α → Production β}

theorem expectKind (kind : TokenKind) :
    Traces room (fun _ => Walk.expectKind kind) (Production.expect kind) := by
  intro c hc
  cases hts : c.remaining with
  | nil =>
    refine .of_error (e := ⟨.expected kind none, []⟩) (by rw [hts, Production.expect]) ?_ rfl ?_
    · exact List.nil_suffix
    · rw [← hts, moveTo_remaining hc]
      exact .of_forall fun _ => expect_end hts
  | cons t ts =>
    by_cases ht : t.kind = kind
    · refine .of_ok (a := t) (by rw [hts, Production.expect, if_pos ht]) ?_ ?_
      · rw [hts]
        exact List.suffix_cons t ts
      · exact .of_forall fun _ => expect_taken hts (decide_eq_true ht)
    · refine .of_error (e := ⟨.expected kind (some t), t :: ts⟩)
        (by rw [hts, Production.expect, if_neg ht]) (hts ▸ List.suffix_refl _) rfl ?_
      · rw [← hts, moveTo_remaining hc]
        exact .of_forall fun _ => expect_refused hts (decide_eq_false ht)

/-- A token of some kind comes first. -/
theorem expect {kind : TokenKind} {k : Nat → Option Token → Walk (Option β)} {f : Token → Production β}
    (hnone : ∀ i, k i none = Pure.pure none) (h : ∀ t, Traces room (fun i => k i (some t)) (f t)) :
    Traces room (fun i => Walk.expectKind kind >>= k i) (Production.expect kind >>= f) :=
  (expectKind kind).bind hnone h

theorem checkKind {kind : TokenKind} {k : Nat → Bool → Walk (Option β)} {f : Bool → Production β}
    (h : ∀ b, Traces room (fun i => k i b) (f b)) :
    Traces room (fun i => Walk.checkKind kind >>= k i) (Production.atKind kind >>= f) := fun c hc =>
  (h _ c hc).congr (fun i => run_checkKind kind (k i) c) rfl

theorem skipDelimiter {d : Delimiter} {k : Nat → Bool → Walk (Option β)} {f : Bool → Production β}
    (h : ∀ b, Traces room (fun i => k i b) (f b)) :
    Traces room (fun i => Walk.skipDelimiter d >>= k i)
      (Production.skipIf (.delimiter d) >>= f) := by
  intro c hc
  by_cases hnext : Next (·.kind ≠ .delimiter d) c.remaining
  · exact (h false c hc).congr (fun i => run_skipDelimiter_not hnext (k i))
      (Production.run_skipIf_not hnext f)
  · obtain ⟨t, ts, hts, ht⟩ := exists_next_of_not hnext
    rw [Decidable.not_not] at ht
    exact (h true _ (hc.moveTo ts)).step hts (fun i => run_skipDelimiter hts ht (k i))
      (Production.run_skipIf ht ts f)

/-- An operator of some sort is taken if it comes next. -/
theorem operator {test : Operator → Bool} {k : Nat → Option Operator → Walk (Option β)}
    {f : Option Operator → Production β}
    (hsome : ∀ op, test op = true →
      Traces room (fun i => k i (some op)) (Production.skip >>= fun _ => f (some op)))
    (hnone : ∀ o : Option Operator, o.filter test = none → Traces room (fun i => k i o) (f none)) :
    Traces room (fun i => currentOperator >>= k i)
      (Production.accept? (fun t => t.operator?.filter test) >>= f) := by
  intro c hc
  by_cases hnext : Next (fun t => t.operator?.filter test = none) c.remaining
  · refine (hnone _ ?_ c hc).congr (fun i => run_currentOperator (k i) c)
      (Production.run_accept?_none hnext f)
    cases hts : c.remaining with
    | nil => rfl
    | cons t ts => simpa [hts] using hnext
  · obtain ⟨t, ts, hts, ht⟩ := exists_next_of_not hnext
    obtain ⟨op, hop⟩ := Option.ne_none_iff_exists'.mp ht
    obtain ⟨hoperator, htest⟩ := Option.filter_eq_some_iff.mp hop
    refine (hsome op htest c hc).congr (fun i => ?_) ?_
    · rw [run_currentOperator, hts, List.head?_cons, Option.bind_some, hoperator]
    · rw [hts, Production.run_accept?_some hop, Production.run_skip]

/-- The next token, if there is one, is taken whatever it is. -/
theorem advance {k : Nat → Option Token → Walk (Option β)} {f : Unit → Production β}
    (h : ∀ o, Traces room (fun i => k i o) (f ())) :
    Traces room (fun i => Walk.advance >>= k i) (Production.skip >>= f) := by
  intro c hc
  cases hts : c.remaining with
  | nil =>
    refine (h none c hc).congr (fun i => run_advance_end hts (k i)) ?_
    rw [hts]
    rfl
  | cons t ts =>
    exact (h (some t) _ (hc.moveTo ts)).step hts (fun i => run_advance hts (k i)) rfl

/-- The next token is looked at. -/
theorem current {k : Nat → Option Token → Walk (Option β)} {f : Option Token → Production β}
    (h : ∀ o, ∀ c : Cursor, c.At room → c.remaining.head? = o → Follows (fun i => k i o) (f o) c) :
    Traces room (fun i => Walk.current >>= k i) (Production.current >>= f) := fun c hc =>
  (h _ c hc rfl).congr (fun i => run_current (k i) c) rfl

section Nesting
variable {body : Nat → Walk (Option β)} {p : Production β}

/-- One level deeper one level less may still be opened, and afterwards as many as before. -/
theorem nested (h : Traces room body p) : Traces (room + 1) (fun i => Walk.enter >>= fun deeper =>
    if deeper = true then body i >>= fun node => Walk.leave >>= fun _ => Pure.pure node
    else Pure.pure none) p := by
  intro c hc
  have hlt : ¬ maxNesting ≤ c.depth := by
    have := hc.depth
    omega
  have hdeeper : ({ c with depth := c.depth + 1 } : Cursor).At room :=
    ⟨hc.inside, (Nat.add_right_comm c.depth 1 room).trans hc.depth⟩
  have hbody := h _ hdeeper
  -- The body runs at the greater depth and gives it back, whatever comes of it.
  have hrun {r : Option β} {d : Cursor} (hd : Yields body { c with depth := c.depth + 1 } r d) :
      Yields (fun i => Walk.enter >>= fun deeper =>
        if deeper = true then body i >>= fun node => Walk.leave >>= fun _ => Pure.pure node
        else Pure.pure none) c r { d with depth := d.depth - 1 } := by
    have henter : Walk.enter c = some (true, { c with depth := c.depth + 1 }) := if_neg hlt
    refine hd.mono fun i hi => (run_bind henter _).trans ?_
    rw [if_pos rfl, run_bind hi]
    rfl
  have hremaining : ({ c with depth := c.depth + 1 } : Cursor).remaining = c.remaining := rfl
  rw [Follows, hremaining] at hbody
  rw [Follows]
  cases hp : p c.remaining with
  | ok r =>
    rw [hp] at hbody
    exact ⟨hbody.1, hrun hbody.2⟩
  | error e =>
    rw [hp] at hbody
    exact ⟨hbody.1, hbody.2.1, hrun hbody.2.2⟩

theorem nested_tooDeep : Traces 0 (fun i => Walk.enter >>= fun deeper =>
    if deeper = true then body i >>= fun node => Walk.leave >>= fun _ => Pure.pure node
    else Pure.pure none) (Production.tooDeep maxNesting) := by
  intro c hc
  have hle : maxNesting ≤ c.depth := Nat.le_of_eq hc.depth.symm
  have henter : Walk.enter c = some (false, c.record (Mismatch.tooDeep maxNesting).message) :=
    if_pos hle
  exact Follows.fail hc rfl fun _ => run_bind henter _

end Nesting

end Traces

end SlangScript
