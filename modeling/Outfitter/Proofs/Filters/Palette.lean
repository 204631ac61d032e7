import Outfitter.Proofs.Filters.Look
import Outfitter.Taxonomy.Dimension

/-!
Normalization and the pastel rule.

Normalization tidies what filters ask for (`shows_normalize`). What it has tidied once stays `Settled`
under merging, and it does nothing more to a settled look (`tidied_eq`), unless the look mixes pastel
with another color. Filters of a single message never do; a union of two may.
-/

namespace Outfitter.Filters

open Taxonomy

variable {l d : Look} {filters : Fields} {counts : Value → Double.Finite → Prop}

/-! ### tokens of the vocabulary -/

/-- The tokens of every dimension are in its vocabulary. -/
def Look.Named (l : Look) : Prop :=
  ∀ d : Dimension, ∀ c ∈ l.tokens d.name, c ∈ d.tokens

/-- A token of the vocabulary is canonical. -/
theorem ruleOf_token {d : Dimension} {c : String} (h : c ∈ d.tokens) : ruleOf d.name c = c := by
  revert c
  cases d <;> decide +kernel

theorem exists_dimension {name : String} (h : tokenRules.lookup name ≠ none) :
    ∃ d : Dimension, d.name = name := by
  have hnames : ∀ k ∈ tokenRules.map (·.1), ∃ d ∈ Dimension.all, d.name = k := by decide
  obtain ⟨d, -, hd⟩ := hnames name ((Keyed.mem_keys_iff tokenRules name).mpr h)
  exact ⟨d, hd⟩

theorem Look.Named.map_ruleOf (hl : l.Named) (name : String) :
    (l.tokens name).map (ruleOf name) = l.tokens name := by
  refine (List.map_congr_left fun c hc => ?_).trans (List.map_id _)
  by_cases h : tokenRules.lookup name = none
  · unfold ruleOf
    rw [h]
    rfl
  · obtain ⟨d, rfl⟩ := exists_dimension h
    exact ruleOf_token (hl d c hc)

/-! ### pastel -/

/-- A color mentions pastel. -/
def Look.Pastel (l : Look) : Prop :=
  ∃ c ∈ l.tokens "colors", mentionsPastel c = true

/-- A color mentions pastel, and another one does not. -/
def Look.Mixed (l : Look) : Prop :=
  l.Pastel ∧ ∃ c ∈ l.tokens "colors", mentionsPastel c = false

theorem Look.pastel_join : (l.join d).Pastel ↔ l.Pastel ∨ d.Pastel := by
  constructor
  · rintro ⟨c, hc, hp⟩
    exact (mem_firsts.mp hc).imp (fun hc => ⟨c, hc, hp⟩) fun hc => ⟨c, hc, hp⟩
  · rintro (⟨c, hc, hp⟩ | ⟨c, hc, hp⟩)
    · exact ⟨c, mem_firsts.mpr (.inl hc), hp⟩
    · exact ⟨c, mem_firsts.mpr (.inr hc), hp⟩

/-- Mixed colors stay mixed. -/
theorem Look.Mixed.join (h : l.Mixed) : (l.join d).Mixed := by
  obtain ⟨hp, c, hc, hn⟩ := h
  exact ⟨pastel_join.mpr (.inl hp), c, mem_firsts.mpr (.inl hc), hn⟩

/-- The look is one that normalization has tidied, or a union of such looks. -/
structure Look.Settled (l : Look) : Prop extends l.Neat where
  named : l.Named
  shade : ∀ c ∈ l.tokens "colors", mentionsPastel c = true → c ∈ pastelPalette
  palette : l.Pastel → ∀ c ∈ pastelPalette, c ∈ l.tokens "colors"

theorem Look.Settled.join (hl : l.Settled) (hd : d.Settled) : (l.join d).Settled where
  toNeat := hl.toNeat.join hd.toNeat
  named := by
    intro e c hc
    rcases mem_firsts.mp hc with hc | hc
    · exact hl.named e c hc
    · exact hd.named e c hc
  shade := by
    intro c hc hp
    rcases mem_firsts.mp hc with hc | hc
    · exact hl.shade c hc hp
    · exact hd.shade c hc hp
  palette := by
    rintro ⟨p, hpc, hp⟩ c hc
    refine mem_firsts.mpr ?_
    rcases mem_firsts.mp hpc with hpc | hpc
    · exact .inl (hl.palette ⟨p, hpc, hp⟩ c hc)
    · exact .inr (hd.palette ⟨p, hpc, hp⟩ c hc)

/-- Nothing is asked for. -/
def Look.none : Look :=
  ⟨fun _ => [], Option.none, Option.none, false⟩

theorem Look.settled_none : Look.none.Settled where
  nodup _ _ := List.nodup_nil
  texts _ _ _ hc := absurd hc List.not_mem_nil
  least _ hx := by cases hx
  most _ hx := by cases hx
  named _ _ hc := absurd hc List.not_mem_nil
  shade _ hc := absurd hc List.not_mem_nil
  palette h := absurd h.choose_spec.1 List.not_mem_nil

theorem shows_none : Shows counts [] Look.none where
  nodup := List.nodup_nil
  others _ _ := rfl
  tokens _ _ := rfl
  inStock := rfl
  price := ⟨Option.none, Option.none, .none, .none, rfl⟩

/-! ### tidying -/

/-- The look with its lists tidied. -/
def Look.tidied (l : Look) : Look :=
  { l with tokens := fun name =>
      if name ∈ listFields then Filters.tidied name (l.tokens name) else l.tokens name }

theorem Look.tokens_tidied {name : String} (h : name ∈ listFields) :
    l.tidied.tokens name = Filters.tidied name (l.tokens name) :=
  if_pos h

theorem pastelTokens_eq (colors : List String) :
    pastelTokens colors = firsts [] (colors.filter (·.startsWith "pastel-") ++ pastelPalette) :=
  rfl

theorem mem_pastelTokens {colors : List String} (hc : ∀ c ∈ colors, c ∈ Dimension.colors.tokens) {c : String} :
    c ∈ pastelTokens colors ↔ c ∈ pastelPalette := by
  have hshades : ∀ c ∈ Dimension.colors.tokens, c.startsWith "pastel-" = true → c ∈ pastelPalette := by
    decide +kernel
  rw [pastelTokens_eq, mem_firsts, List.mem_append, List.mem_filter]
  constructor
  · rintro (h | ⟨h, hp⟩ | h)
    · cases h
    · exact hshades c (hc c h) hp
    · exact h
  · exact fun h => .inr (.inr h)

theorem pastelPalette_facts : ∀ c ∈ pastelPalette,
    c.startsWith "pastel-" = true ∧ c ∈ Dimension.colors.tokens ∧ mentionsPastel c = true := by
  decide +kernel

/-- The whole palette and nothing else stays as it is. -/
theorem pastelTokens_of_palette {colors : List String} (hn : colors.Nodup)
    (h : ∀ c, c ∈ colors ↔ c ∈ pastelPalette) : pastelTokens colors = colors := by
  have hkept : colors.filter (·.startsWith "pastel-") = colors :=
    List.filter_eq_self.mpr fun c hc => (pastelPalette_facts c ((h c).mp hc)).1
  have happend : firsts [] (colors ++ pastelPalette) = firsts (firsts [] colors) pastelPalette :=
    List.foldl_append ..
  rw [pastelTokens_eq, hkept, happend, firsts_nil hn]
  exact firsts_of_subset fun c hc => (h c).mpr hc

theorem tidied_nil (name : String) : tidied name [] = [] := by
  unfold tidied broadened
  split <;> rfl

theorem nodup_tidied (name : String) (tokens : List String) : (tidied name tokens).Nodup :=
  (nodup_firsts List.nodup_nil).filter _

theorem nonempty_tidied {name : String} {tokens : List String} {c : String} (h : c ∈ tidied name tokens) :
    c.isEmpty = false := by
  have := (List.mem_filter.mp h).2
  cases hc : c.isEmpty with
  | false => rfl
  | true => rw [hc] at this; cases this

theorem mem_tidied {name : String} {tokens : List String} {c : String} (h : c ∈ tidied name tokens) :
    c ∈ broadened name (tokens.map (ruleOf name)) := by
  rcases mem_firsts.mp (List.mem_filter.mp h).1 with h | h
  · cases h
  · exact h

/-- The colors of a tidied look: the palette if one of them mentioned pastel, and the same colors if
not. -/
theorem Look.Named.mem_colors (hl : l.Named) {c : String} (h : c ∈ l.tidied.tokens "colors") :
    l.Pastel ∧ c ∈ pastelPalette ∨ ¬ l.Pastel ∧ c ∈ l.tokens "colors" := by
  rw [tokens_tidied (by decide)] at h
  have hc : c ∈ pastelFallback (l.tokens "colors") := hl.map_ruleOf "colors" ▸ mem_tidied h
  unfold pastelFallback at hc
  by_cases hp : l.Pastel
  · rw [if_pos (List.any_eq_true.mpr hp)] at hc
    exact .inl ⟨hp, (mem_pastelTokens (hl .colors)).mp hc⟩
  · rw [if_neg fun h => hp (List.any_eq_true.mp h)] at hc
    exact .inr ⟨hp, hc⟩

theorem Look.Named.palette_tidied (hl : l.Named) (hp : l.Pastel) {c : String} (h : c ∈ pastelPalette) :
    c ∈ l.tidied.tokens "colors" := by
  have hwords : ∀ c ∈ pastelPalette, (!c.isEmpty) = true := by decide
  rw [tokens_tidied (by decide)]
  refine List.mem_filter.mpr ⟨mem_firsts.mpr (.inr ?_), hwords c h⟩
  rw [hl.map_ruleOf]
  show c ∈ pastelFallback (l.tokens "colors")
  unfold pastelFallback
  rw [if_pos (List.any_eq_true.mpr hp)]
  exact (mem_pastelTokens (hl .colors)).mpr h

theorem Look.Named.pastel_tidied (hl : l.Named) (hp : l.Pastel) : l.tidied.Pastel := by
  obtain ⟨c, hc⟩ : ∃ c, c ∈ pastelPalette := ⟨_, List.mem_cons_self ..⟩
  exact ⟨c, hl.palette_tidied hp hc, (pastelPalette_facts c hc).2.2⟩

theorem Look.Named.tidied (hl : l.Named) : l.tidied.Named := by
  intro e c hc
  by_cases he : e = .colors
  · subst he
    rcases hl.mem_colors hc with ⟨-, hc⟩ | ⟨-, hc⟩
    · exact (pastelPalette_facts c hc).2.1
    · exact hl .colors c hc
  · have hne : e.name ≠ "colors" := by
      cases e <;> first | exact absurd rfl he | decide
    by_cases hname : e.name ∈ listFields
    · rw [tokens_tidied hname] at hc
      have := mem_tidied hc
      rw [hl.map_ruleOf] at this
      unfold broadened at this
      rw [if_neg hne] at this
      exact hl e c this
    · have hkept : l.tidied.tokens e.name = l.tokens e.name := if_neg hname
      exact hl e c (hkept ▸ hc)

/-- What is tidied is settled. -/
theorem Look.Named.settled_tidied (hl : l.Named) (hleast : ∀ x ∈ l.least, Natural x)
    (hmost : ∀ x ∈ l.most, Natural x) : l.tidied.Settled where
  nodup name h := by
    rw [tokens_tidied h]
    exact nodup_tidied name _
  texts name h c hc := by
    rw [tokens_tidied h] at hc
    exact nonempty_tidied hc
  least := hleast
  most := hmost
  named := hl.tidied
  shade c hc hp := by
    rcases hl.mem_colors hc with ⟨-, hc⟩ | ⟨hn, hc⟩
    · exact hc
    · exact absurd ⟨c, hc, hp⟩ hn
  palette := by
    rintro ⟨p, hpc, hp⟩ c hc
    have hpastel : l.Pastel := by
      rcases hl.mem_colors hpc with ⟨h, -⟩ | ⟨-, h⟩
      · exact h
      · exact ⟨p, h, hp⟩
    exact hl.palette_tidied hpastel hc

/-- A look that is tidied once does not mix pastel with another color. -/
theorem Look.Named.not_mixed_tidied (hl : l.Named) : ¬ l.tidied.Mixed := by
  rintro ⟨⟨p, hpc, hp⟩, c, hc, hn⟩
  rcases hl.mem_colors hc with ⟨-, hc⟩ | ⟨hnone, -⟩
  · rw [(pastelPalette_facts c hc).2.2] at hn
    cases hn
  · rcases hl.mem_colors hpc with ⟨h, -⟩ | ⟨-, h⟩
    · exact hnone h
    · exact hnone ⟨p, h, hp⟩

theorem Look.Settled.pastelFallback_eq (hl : l.Settled) (hm : ¬ l.Mixed) :
    pastelFallback (l.tokens "colors") = l.tokens "colors" := by
  unfold pastelFallback
  by_cases hp : l.Pastel
  · rw [if_pos (List.any_eq_true.mpr hp)]
    refine pastelTokens_of_palette (hl.nodup "colors" (by decide)) fun c => ⟨fun hc => ?_, hl.palette hp c⟩
    cases hc' : mentionsPastel c with
    | true => exact hl.shade c hc hc'
    | false => exact absurd ⟨hp, c, hc, hc'⟩ hm
  · rw [if_neg fun h => hp (List.any_eq_true.mp h)]

/-- **Normalization does nothing to a settled look** that does not mix pastel with another color. -/
theorem Look.Settled.tidied_eq (hl : l.Settled) (hm : ¬ l.Mixed) : l.tidied = l := by
  have htokens : ∀ name ∈ listFields, Filters.tidied name (l.tokens name) = l.tokens name := by
    intro name h
    have hbroad : broadened name (l.tokens name) = l.tokens name := by
      unfold broadened
      split
      · next he => exact he ▸ hl.pastelFallback_eq hm
      · rfl
    unfold Filters.tidied
    rw [hl.named.map_ruleOf, hbroad, firsts_nil (hl.nodup name h), filter_nonempty (hl.texts name h)]
  unfold tidied
  congr 1
  funext name
  split
  · next h => exact htokens name h
  · rfl

/-! ### normalization -/

/-- **What normalized filters ask for** is what they gave, tidied. -/
theorem shows_normalize (h : Gives counts filters l) (hc : ∀ v x, counts v x → IsNumber v) :
    Shows counts (normalize filters) l.tidied where
  nodup := nodup_normalize h.nodup
  others key hkey := get?_normalize_none (h.others key hkey)
  tokens name hname := by
    rw [Look.tokens_tidied hname]
    rcases h.tokens name hname with hv | ⟨hv, hnil⟩
    · exact get?_normalize_list h.nodup hname hv
    · rw [get?_normalize_none hv, hnil, tidied_nil]
      rfl
  inStock := by
    rw [get?_normalize_other h.nodup (by decide), h.inStock]
    show _ = if l.inStock then some (Value.bool true) else Option.none
    cases l.inStock <;> rfl
  price := by
    obtain ⟨least, most, hleast, hmost, hp⟩ := h.price
    have hnumber : ∀ {v : Option Value} {x : Option Double.Finite}, Option.Rel counts v x →
        ∀ w ∈ v, IsNumber w := by
      intro v x hr w hw
      obtain ⟨y, -, hy⟩ := exists_of_rel hr hw
      exact hc w y hy
    refine ⟨least, most, hleast, hmost, ?_⟩
    rw [get?_normalize_other h.nodup (by decide)]
    rcases hp with hp | ⟨hp, rfl, rfl⟩
    · rw [hp]
      exact pruned?_bounds (hnumber hleast) (hnumber hmost)
    · rw [hp]
      rfl

end Outfitter.Filters
