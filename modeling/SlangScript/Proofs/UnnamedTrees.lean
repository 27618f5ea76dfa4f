import SlangScript.Proofs.Acceptance
import SlangScript.Proofs.Respelling

/-! Trees without the spelling of names. The grammar looks at a name in one respect only, as the checks
do: whether it opens a line list. -/
namespace SlangScript

namespace Tree

mutual

/-- The tree without the spelling of its names. -/
def unnamed : Tree → Tree
  | node tag value children =>
    node tag (if tag = .identifier then none else value) (unnamedAll children)

def unnamedAll : List Tree → List Tree
  | [] => []
  | t :: ts => unnamed t :: unnamedAll ts

end

theorem unnamedAll_eq_map (ts : List Tree) : unnamedAll ts = ts.map unnamed := by
  induction ts with
  | nil => rfl
  | cons t ts ih => rw [unnamedAll, ih, List.map_cons]

@[simp] theorem unnamed_node (tag : Tag) (value : Option String) (children : List Tree) :
    (node tag value children).unnamed =
      node tag (if tag = .identifier then none else value) (children.map unnamed) := by
  rw [unnamed, unnamedAll_eq_map]

@[simp] theorem unnamed_identifier (text : String) :
    (leaf .identifier text).unnamed = node .identifier none [] := rfl

end Tree

section Trees
open SlangScript.Tree
variable {k n : Nat} {part : Part} {t u : Token} {w w' : List Token} {ts : List Tree} {e : Tree}

theorem Token.Alike.declares (h : t.Alike k u) (ht : t.declares) : u.declares :=
  ⟨h.kind ▸ ht.1, h.lexeme ht.ne_identifier ▸ ht.2⟩

theorem Token.Alike.leaf (h : t.Alike k u) {tag : Tag} (ht : Tag.ofOperand? t.kind = some tag) :
    (Tree.leaf tag u.lexeme).unnamed = (Tree.leaf tag t.lexeme).unnamed := by
  by_cases hname : t.kind = .identifier
  · rw [hname] at ht
    cases ht
    rfl
  · rw [h.lexeme hname]

/-- The part is derived from these tokens with such trees, but for the spelling of names. -/
def DerivesAlike (part : Part) (n : Nat) (w : List Token) (ts : List Tree) : Prop :=
  ∃ ts', Derives part n w ts' ∧ ts'.map unnamed = ts.map unnamed

theorem DerivesAlike.single (h : DerivesAlike part n w [e]) :
    ∃ e', Derives part n w [e'] ∧ e'.unnamed = e.unnamed := by
  obtain ⟨ts', hd, hts⟩ := h
  obtain ⟨e', rfl, he⟩ := List.map_eq_singleton_iff.mp hts
  exact ⟨e', hd, he⟩

/-- A rule that keeps the tree keeps the likeness. -/
theorem DerivesAlike.through {part' : Part} {m : Nat} (h : DerivesAlike part n w [e])
    (hrule : ∀ {e'}, Derives part n w [e'] → Derives part' m w' [e']) :
    DerivesAlike part' m w' [e] := by
  obtain ⟨e', hd, he⟩ := h.single
  exact ⟨[e'], hrule hd, by simp [he]⟩

theorem derivesAlike_single {e' : Tree} (h : Derives part n w [e']) (he : e'.unnamed = e.unnamed) :
    DerivesAlike part n w [e] := ⟨[e'], h, by simp [he]⟩

/-- What the grammar derives from tokens it derives from them under other names. -/
theorem Derives.respelled (h : Derives part n w ts) (hw : Respelled k w w') :
    DerivesAlike part n w' ts := by
  induction h generalizing w' with
  | literal ht =>
    obtain ⟨u, rfl, hu⟩ := hw.of_singleton
    exact derivesAlike_single (.literal (hu.kind ▸ ht)) (hu.leaf ht)
  | stepped ht ho =>
    obtain ⟨u, _, rfl, hu, hw⟩ := hw.of_cons
    obtain ⟨o, rfl, ho'⟩ := hw.of_singleton
    exact derivesAlike_single (.stepped (hu.kind ▸ ht) (by rwa [Token.incDecOperator?, ho'.operator?]))
      (by simp [hu.leaf ht])
  | grouped ho he hc ih =>
    obtain ⟨o', _, rfl, ho', hw⟩ := hw.of_cons
    obtain ⟨v, c', rfl, hv, hc'⟩ := hw.of_concat
    exact (ih hv).through fun he' => .grouped (ho'.kind.trans ho) he' (hc'.kind.trans hc)
  | arrayOperand ha ih => exact (ih hw).through .arrayOperand
  | single he ih => exact (ih hw).through .single
  | binary hl ho hr ihl ihr =>
    obtain ⟨v, o', x, rfl, hv, ho', hx⟩ := hw.of_between
    obtain ⟨l', hl', hul⟩ := (ihl hv).single
    obtain ⟨r', hr', hur⟩ := (ihr hx).single
    exact derivesAlike_single (.binary hl' (by rwa [Token.binaryOperator?, ho'.operator?]) hr')
      (by simp [Tree.binary, hul, hur])
  | call hf ho hs hc ih =>
    obtain ⟨f', _, rfl, hf', hw⟩ := hw.of_cons
    obtain ⟨o', _, rfl, ho', hw⟩ := hw.of_cons
    obtain ⟨v, c', rfl, hv, hc'⟩ := hw.of_concat
    obtain ⟨es', hs', hu⟩ := ih hv
    exact derivesAlike_single
      (.call (hf'.kind.trans hf) (ho'.kind.trans ho) hs' (hc'.kind.trans hc))
      (by simp [hf'.lexeme (by simp [hf]), hu])
  | callElement he ih => exact (ih hw).through .callElement
  | expressionElement he ih => exact (ih hw).through .expressionElement
  | array ho hs hc ih =>
    obtain ⟨o', _, rfl, ho', hw⟩ := hw.of_cons
    obtain ⟨v, c', rfl, hv, hc'⟩ := hw.of_concat
    obtain ⟨es', hs', hu⟩ := ih hv
    exact derivesAlike_single (.array (ho'.kind.trans ho) hs' (hc'.kind.trans hc)) (by simp [hu])
  | number ht =>
    obtain ⟨u, rfl, hu⟩ := hw.of_singleton
    exact derivesAlike_single (.number (hu.kind.trans ht)) (hu.leaf (by rw [ht]; rfl))
  | parameter ht hx =>
    obtain ⟨u, _, rfl, hu, hw⟩ := hw.of_cons
    obtain ⟨x', rfl, hx'⟩ := hw.of_singleton
    exact derivesAlike_single (.parameter (hu.kind ▸ ht) (hx'.kind.trans hx))
      (by simp [hu.lexeme (ne_identifier_of_isWord ht)])
  | parameters hs ih =>
    obtain ⟨ps', hs', hu⟩ := ih hw
    exact ⟨ps', .parameters hs', hu⟩
  | trailingComma hs hc ih =>
    obtain ⟨v, c', rfl, hv, hc'⟩ := hw.of_concat
    obtain ⟨ps', hs', hu⟩ := ih hv
    exact ⟨ps', .trailingComma hs' (hc'.kind.trans hc), hu⟩
  | one he ih => exact (ih hw).through .one
  | more he hc hs ihe ihs =>
    obtain ⟨v, c', x, rfl, hv, hc', hx⟩ := hw.of_between
    obtain ⟨e', he', hue⟩ := (ihe hv).single
    obtain ⟨es', hs', hus⟩ := ihs hx
    exact ⟨e' :: es', .more he' (hc'.kind.trans hc) hs', by simp [hue, hus]⟩
  | unlisted =>
    cases hw
    exact ⟨[], .unlisted, rfl⟩
  | listed hs ih =>
    obtain ⟨es', hs', hu⟩ := ih hw
    exact ⟨es', .listed hs', hu⟩
  | braces ho hs hc ih =>
    obtain ⟨o', _, rfl, ho', hw⟩ := hw.of_cons
    obtain ⟨v, c', rfl, hv, hc'⟩ := hw.of_concat
    obtain ⟨ss', hs', hu⟩ := ih hv
    exact derivesAlike_single (.braces (ho'.kind.trans ho) hs' (hc'.kind.trans hc)) (by simp [hu])
  | guarded ho he hc hb ihe ihb =>
    obtain ⟨o', _, rfl, ho', hw⟩ := hw.of_cons
    obtain ⟨v, c', b', rfl, hv, hc', hb'⟩ := hw.of_between
    obtain ⟨e', he', hue⟩ := (ihe hv).single
    obtain ⟨list', hlist', hul⟩ := (ihb hb').single
    exact derivesAlike_single (.guarded (ho'.kind.trans ho) he' (hc'.kind.trans hc) hlist')
      (by simp [hue, hul])
  | unbranched =>
    cases hw
    exact ⟨[], .unbranched, rfl⟩
  | elseIf he hs hb hbs ihb ihbs =>
    obtain ⟨e', _, rfl, he', hw⟩ := hw.of_cons
    obtain ⟨s', _, rfl, hs', hw⟩ := hw.of_cons
    obtain ⟨v, x, rfl, hv, hx⟩ := hw.of_append
    obtain ⟨b', hb', hub⟩ := (ihb hv).single
    obtain ⟨bs', hbs', hubs⟩ := ihbs hx
    exact ⟨b' :: bs', .elseIf ((he'.isWord _).trans he) ((hs'.isWord _).trans hs) hb' hbs',
      by simp [hub, hubs]⟩
  | elseBlock he hb ih =>
    obtain ⟨e', v, rfl, he', hv⟩ := hw.of_cons
    obtain ⟨list', hlist', hu⟩ := (ih hv).single
    exact derivesAlike_single (.elseBlock ((he'.isWord _).trans he) hlist') (by simp [hu])
  | assignedArray ha ih => exact (ih hw).through .assignedArray
  | assignedExpression he hno ih =>
    refine (ih hw).through fun he' => .assignedExpression he' fun t ht => ?_
    obtain ⟨s, hs, halike⟩ := hw.head?_symm ht
    exact halike.kind ▸ hno s hs
  | declaration hk hx =>
    obtain ⟨k', _, rfl, hk', hw⟩ := hw.of_cons
    obtain ⟨x', rfl, hx'⟩ := hw.of_singleton
    exact derivesAlike_single (.declaration (hk'.declares hk) (hx'.kind.trans hx))
      (by simp [hk'.lexeme hk.ne_identifier])
  | initialised hk hx ho hop he ih =>
    obtain ⟨k', _, rfl, hk', hw⟩ := hw.of_cons
    obtain ⟨x', _, rfl, hx', hw⟩ := hw.of_cons
    obtain ⟨o', v, rfl, ho', hv⟩ := hw.of_cons
    obtain ⟨e', he', hu⟩ := (ih hv).single
    exact derivesAlike_single (.initialised (hk'.declares hk) (hx'.kind.trans hx)
      (ho'.operator?.trans ho) hop he') (by simp [hk'.lexeme hk.ne_identifier, hu])
  | print hk ho he hc ih =>
    obtain ⟨k', _, rfl, hk', hw⟩ := hw.of_cons
    obtain ⟨o', _, rfl, ho', hw⟩ := hw.of_cons
    obtain ⟨v, c', rfl, hv, hc'⟩ := hw.of_concat
    obtain ⟨e', he', hu⟩ := (ih hv).single
    exact derivesAlike_single
      (.print ((hk'.isWord _).trans hk) (ho'.kind.trans ho) he' (hc'.kind.trans hc)) (by simp [hu])
  | input hk ho hx hc =>
    obtain ⟨k', _, rfl, hk', hw⟩ := hw.of_cons
    obtain ⟨o', _, rfl, ho', hw⟩ := hw.of_cons
    obtain ⟨x', _, rfl, hx', hw⟩ := hw.of_cons
    obtain ⟨c', rfl, hc'⟩ := hw.of_singleton
    exact derivesAlike_single (.input ((hk'.isWord _).trans hk) (ho'.kind.trans ho)
      (hx'.kind.trans hx) (hc'.kind.trans hc)) (by simp)
  | reply hk he ih =>
    obtain ⟨k', v, rfl, hk', hv⟩ := hw.of_cons
    obtain ⟨e', he', hu⟩ := (ih hv).single
    exact derivesAlike_single (.reply ((hk'.isWord _).trans hk) he') (by simp [hu])
  | called he ih => exact (ih hw).through .called
  | lineList hx hs ho hns hc ih =>
    cases hw with
    | cons hx' hline hw =>
    -- the first token opens the list, so it has to be `line` still
    have hopens := (hline.mp ⟨hx, _, rfl, hs⟩).1
    obtain ⟨s', _, rfl, hs', hw⟩ := hw.of_cons
    obtain ⟨o', _, rfl, ho', hw⟩ := hw.of_cons
    obtain ⟨v, c', rfl, hv, hc'⟩ := hw.of_concat
    obtain ⟨ns', hns', hu⟩ := ih hv
    exact derivesAlike_single (.lineList hopens (hs'.operator?.trans hs) (ho'.kind.trans ho) hns'
      (hc'.kind.trans hc)) (by simp [hu])
  | alone hx =>
    obtain ⟨x', rfl, hx'⟩ := hw.of_singleton
    exact derivesAlike_single (.alone (hx'.kind.trans hx)) (by simp)
  | counted hx ho hop =>
    obtain ⟨x', _, rfl, hx', hw⟩ := hw.of_cons
    obtain ⟨o', rfl, ho'⟩ := hw.of_singleton
    exact derivesAlike_single (.counted (hx'.kind.trans hx) (ho'.operator?.trans ho) hop) (by simp)
  | assignment hx ho hop hno he ih =>
    cases hw with
    | cons hx' hline hw =>
    obtain ⟨o', v, rfl, ho', hv⟩ := hw.of_cons
    obtain ⟨e', he', hu⟩ := (ih hv).single
    have ho' := ho'.operator?.trans ho
    refine derivesAlike_single (.assignment (hx'.kind.trans hx) ho' hop ?_ he') (by simp [hu])
    -- no line list is opened here under the other name either
    rintro hisLine rfl
    exact hno (hline.mpr ⟨hisLine, o', rfl, ho'⟩).1 rfl
  | unterminated hs ih => exact (ih hw).through .unterminated
  | terminated hs ht ih =>
    obtain ⟨v, t', rfl, hv, ht'⟩ := hw.of_concat
    exact (ih hv).through fun hs' => .terminated hs' (ht'.kind.trans ht)
  | ifChain hk hb hbs ihb ihbs =>
    obtain ⟨k', _, rfl, hk', hw⟩ := hw.of_cons
    obtain ⟨v, x, rfl, hv, hx⟩ := hw.of_append
    obtain ⟨b', hb', hub⟩ := (ihb hv).single
    obtain ⟨bs', hbs', hubs⟩ := ihbs hx
    exact derivesAlike_single (.ifChain ((hk'.isWord _).trans hk) hb' hbs') (by simp [hub, hubs])
  | forLoop hk ho hu hs₁ hv hs₂ hx hc hb ihu ihv ihx ihb =>
    obtain ⟨k', _, rfl, hk', hw⟩ := hw.of_cons
    obtain ⟨o', _, rfl, ho', hw⟩ := hw.of_cons
    obtain ⟨u, s₁', _, rfl, hu', hs₁', hw⟩ := hw.of_between
    obtain ⟨v, s₂', _, rfl, hv', hs₂', hw⟩ := hw.of_between
    obtain ⟨x, c', b, rfl, hx', hc', hb'⟩ := hw.of_between
    obtain ⟨start', hstart, hustart⟩ := (ihu hu').single
    obtain ⟨test', htest, hutest⟩ := (ihv hv').single
    obtain ⟨step', hstep, hustep⟩ := (ihx hx').single
    obtain ⟨list', hlist, hulist⟩ := (ihb hb').single
    exact derivesAlike_single (.forLoop ((hk'.isWord _).trans hk) (ho'.kind.trans ho) hstart
      (hs₁'.kind.trans hs₁) htest (hs₂'.kind.trans hs₂) hstep (hc'.kind.trans hc) hlist)
      (by simp [hustart, hutest, hustep, hulist])
  | whileLoop hk hs ih =>
    obtain ⟨k', v, rfl, hk', hv⟩ := hw.of_cons
    exact (ih hv).through fun hs' => .whileLoop ((hk'.isWord _).trans hk) hs'
  | switch hk hs ih =>
    obtain ⟨k', v, rfl, hk', hv⟩ := hw.of_cons
    exact (ih hv).through fun hs' => .switch ((hk'.isWord _).trans hk) hs'
  | definition hk hf ho hps hc hb ihps ihb =>
    obtain ⟨k', _, rfl, hk', hw⟩ := hw.of_cons
    obtain ⟨f', _, rfl, hf', hw⟩ := hw.of_cons
    obtain ⟨o', _, rfl, ho', hw⟩ := hw.of_cons
    obtain ⟨v, c', b', rfl, hv, hc', hb'⟩ := hw.of_between
    obtain ⟨ps', hps', hups⟩ := ihps hv
    obtain ⟨list', hlist', hul⟩ := (ihb hb').single
    exact derivesAlike_single (.definition ((hk'.isWord _).trans hk) (hf'.kind.trans hf)
      (ho'.kind.trans ho) hps' (hc'.kind.trans hc) hlist')
      (by simp [hf'.lexeme (by simp [hf]), hups, hul])
  | block hb ih =>
    obtain ⟨list', hlist', hu⟩ := (ih hw).single
    exact derivesAlike_single (.block hlist') (by simp [hu])
  | done =>
    cases hw
    exact ⟨[], .done, rfl⟩
  | next hs hss ihs ihss =>
    obtain ⟨v, x, rfl, hv, hx⟩ := hw.of_append
    obtain ⟨s', hs', hu⟩ := (ihs hv).single
    obtain ⟨ss', hss', hus⟩ := ihss hx
    exact ⟨s' :: ss', .next hs' hss', by simp [hu, hus]⟩

end Trees

end SlangScript
