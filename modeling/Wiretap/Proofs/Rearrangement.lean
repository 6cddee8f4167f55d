import Mathlib.Data.List.Perm.Basic
import Wiretap.Proofs.Growth
import Wiretap.Proofs.Report
import Wiretap.Report.Rendering
import Wiretap.Report.Summary

/-! Order and repetition do not matter to a report. Messages, nonces and the owners of a key may be
put in another order or repeated, and so may the declarations of keys, as long as those of one name
keep their order. Each of two such protocols extends the other, so that everybody knows the same. The
order of the roles is that of the entries of the report, the adversary apart. -/

namespace Wiretap

/-- `d` and `d'` declare the same key for the same owners. -/
structure KeyDecl.Restates (d d' : KeyDecl) : Prop where
  kind : d.kind = d'.kind
  name : d.name = d'.name
  owners : ∀ owner, owner ∈ d.owners ↔ owner ∈ d'.owners

theorem KeyDecl.Restates.symm {d d' : KeyDecl} (h : d.Restates d') : d'.Restates d :=
  ⟨h.kind.symm, h.name.symm, fun owner => (h.owners owner).symm⟩

theorem KeyDecl.Restates.widens {d d' : KeyDecl} (h : d.Restates d') : d.Widens d' :=
  ⟨h.kind, h.name, fun owner => (h.owners owner).mp⟩

/-- The kind of a term depends on what the table says about it, and on which names are taken. -/
theorem bucket_congr {table table' : KeyTable} {lowered lowered' : List String} {t : String}
    (hkind : table.kind? t = table'.kind? t) (hlowered : ∀ x, x ∈ lowered ↔ x ∈ lowered') :
    bucket table lowered t = bucket table' lowered' t := by
  have hopens : table.opens t = table'.opens t := by
    unfold KeyTable.opens
    rw [hkind]
  have hcontains : lowered.contains (Text.lowercase t) = lowered'.contains (Text.lowercase t) := by
    rw [Bool.eq_iff_iff, List.contains_iff_mem, List.contains_iff_mem, hlowered]
  unfold bucket
  rw [hopens, hcontains, hkind]

namespace Protocol

variable {p q : Protocol} {naming : Naming} {name : String}

/-- The protocols have the same roles, messages and nonces, in whatever order and however often, and
for every name the same declarations of a key with that name in the same order. -/
structure Rearranges (p q : Protocol) : Prop where
  roles : ∀ role, role ∈ p.roles ↔ role ∈ q.roles
  messages : ∀ m, m ∈ p.messages ↔ m ∈ q.messages
  nonces : ∀ d, d ∈ p.nonces ↔ d ∈ q.nonces
  keys : ∀ name, List.Forall₂ KeyDecl.Restates (p.declarationsOf name) (q.declarationsOf name)

namespace Rearranges

theorem symm (h : p.Rearranges q) : q.Rearranges p where
  roles role := (h.roles role).symm
  messages m := (h.messages m).symm
  nonces d := (h.nonces d).symm
  keys name := (h.keys name).flip.imp fun _ _ hd => hd.symm

theorem toExtends (h : p.Rearranges q) : p.Extends q where
  roles role := (h.roles role).mp
  messages m := (h.messages m).mp
  nonces d := (h.nonces d).mp
  keys d _ := (h.keys d.name).imp fun _ _ hd => hd.widens

theorem kind?_eq (h : p.Rearranges q) (name : String) :
    p.keyTable.kind? name = q.keyTable.kind? name :=
  kind?_eq_of_declarationsOf (fun _ _ hd => hd.kind) (h.keys name)

/-- Each protocol extends the other, so the least closed sets are the same. -/
theorem leaves (h : p.Rearranges q) {v : View} (hv : p.Leaves naming name v) :
    q.Leaves naming name v where
  name := hv.name
  nodup := hv.nodup
  pending c := (hv.pending c).trans ⟨h.toExtends.hands, h.symm.toExtends.hands⟩
  least := by
    have hbasis : q.basis name = p.basis name :=
      Set.Subset.antisymm (h.symm.toExtends.basis_subset name) (h.toExtends.basis_subset name)
    have hclosed : ∀ S, (q.locks naming).Closed v.pending S ↔ (p.locks naming).Closed v.pending S :=
      fun S => ⟨h.toExtends.closed, h.symm.toExtends.closed⟩
    simp only [hbasis, hclosed]
    exact hv.least

theorem mem_constructed_iff (h : p.Rearranges q) {x : String} :
    x ∈ p.constructed ↔ x ∈ q.constructed := by
  simp only [mem_constructed, h.messages]

theorem profile_eq (h : p.Rearranges q) (v : View) :
    v.profile p.keyTable p.constructed = v.profile q.keyTable q.constructed := by
  have hlowered : ∀ x,
      x ∈ p.constructed.map Text.lowercase ↔ x ∈ q.constructed.map Text.lowercase := by
    simp only [List.mem_map, h.mem_constructed_iff, implies_true]
  have hbucket : ∀ t, bucket p.keyTable (p.constructed.map Text.lowercase) t =
      bucket q.keyTable (q.constructed.map Text.lowercase) t :=
    fun t => bucket_congr (h.kind?_eq t) hlowered
  unfold View.profile classify
  simp only [hbucket]

theorem profiles (h : p.Rearranges q) {profile : Profile} (hp : p.Profiles naming name profile) :
    q.Profiles naming name profile := by
  obtain ⟨v, hv, rfl⟩ := hp
  exact ⟨v, h.leaves hv, h.profile_eq v⟩

theorem others_perm (h : p.Rearranges q) : p.others.Perm q.others := by
  rw [List.perm_ext_iff_of_nodup p.others_nodup q.others_nodup]
  simp only [mem_others, h.roles, implies_true]

end Rearranges

/-- A principal has one profile. -/
theorem profiles_rightUnique (p : Protocol) (naming : Naming) :
    Relator.RightUnique (p.Profiles naming) := by
  rintro who a b ⟨v, hv, rfl⟩ ⟨w, hw, rfl⟩
  have hname : v.name = w.name := hv.name.trans hw.name.symm
  unfold View.profile
  rw [(hv.unique hw).1, hname]

/-- The reports on protocols that are rearrangements of each other have the same verdict, the same
entry of the adversary at the end, and in front of it the same entries up to their order. With the
same declaration of roles they are the same, as values and as texts. -/
theorem analyze_rearranged (naming : Naming) (hp : ∀ m ∈ p.messages, m.body.IsStatement)
    (h : p.Rearranges q) :
    ∃ a b others others' last verdict, p.analyze naming = .ok a ∧ q.analyze naming = .ok b ∧
      a.report = ⟨others ++ [last], verdict⟩ ∧ b.report = ⟨others' ++ [last], verdict⟩ ∧
      last.name = adversary ∧ (∀ profile ∈ others, profile.name ≠ adversary) ∧
      others.Perm others' ∧
      (p.roles = q.roles →
        a.report.toJson = b.report.toJson ∧ a.report.format = b.report.format) := by
  have hq : ∀ m ∈ q.messages, m.body.IsStatement := fun m hm => hp m ((h.messages m).mpr hm)
  obtain ⟨a, ha, others, last, reports⟩ := analyze_reports p naming hp
  obtain ⟨b, hb, others', last', reports'⟩ := analyze_reports q naming hq
  have hothers : List.Forall₂ (q.Profiles naming) p.others others :=
    reports.others.imp fun _ _ hprofile => h.profiles hprofile
  obtain rfl : last = last' := profiles_rightUnique q naming (h.profiles reports.last) reports'.last
  refine ⟨a, b, others, others', last, last.judge naming, ha, hb, reports.eq, reports'.eq,
    reports.last.name_eq, fun profile hprofile => ?_, ?_, fun hroles => ?_⟩
  · obtain ⟨who, hwho, hprofile⟩ := forall₂_mem_right reports.others hprofile
    rw [hprofile.name_eq]
    exact (mem_others.mp hwho).2
  · exact List.rel_perm_imp (profiles_rightUnique q naming) hothers reports'.others h.others_perm
  · have hlines : p.others = q.others := by rw [others_eq, others_eq, hroles]
    have heq : others = others' :=
      List.right_unique_forall₂' (profiles_rightUnique q naming) hothers (hlines ▸ reports'.others)
    rw [reports.eq, reports'.eq, heq]
    exact ⟨rfl, rfl⟩

/-- A key that is declared as public and then as shared, and two messages. -/
def settled : Protocol where
  roles := ["A", "B", "C"]
  keys := [⟨.publicHalf, "K", ["A"]⟩, ⟨.shared, "K", ["A", "B"]⟩, ⟨.privateHalf, "sk", ["B", "C"]⟩]
  nonces := [⟨"n", "A"⟩, ⟨"z", "B"⟩]
  messages := [⟨"A", "B", .enc "K" (.ident "n")⟩, ⟨"B", "C", .assign "c" (.hash (.ident "z"))⟩]

/-- The same in another order and with repetitions. -/
def shuffled : Protocol where
  roles := ["C", "A", "B", "C"]
  keys := [⟨.publicHalf, "K", ["A", "A"]⟩, ⟨.privateHalf, "sk", ["C", "B", "C"]⟩,
    ⟨.shared, "K", ["B", "A"]⟩]
  nonces := [⟨"z", "B"⟩, ⟨"n", "A"⟩]
  messages := [⟨"B", "C", .assign "c" (.hash (.ident "z"))⟩, ⟨"A", "B", .enc "K" (.ident "n")⟩,
    ⟨"B", "C", .assign "c" (.hash (.ident "z"))⟩]

theorem analyze_rearranged_shuffled :
    (∀ m ∈ settled.messages, m.body.IsStatement) ∧ settled.Rearranges shuffled ∧
      ∃ a b others others' last verdict, settled.analyze {} = .ok a ∧ shuffled.analyze {} = .ok b ∧
        a.report = ⟨others ++ [last], verdict⟩ ∧ b.report = ⟨others' ++ [last], verdict⟩ ∧
        others.Perm others' := by
  have hp : ∀ m ∈ settled.messages, m.body.IsStatement := by decide
  have hkeys : ∀ name, List.Forall₂ KeyDecl.Restates (settled.declarationsOf name)
      (shuffled.declarationsOf name) := by
    intro name
    by_cases hK : "K" = name
    · subst hK
      exact .cons ⟨rfl, rfl, by simp⟩ (.cons ⟨rfl, rfl, by simp [or_comm]⟩ .nil)
    · by_cases hsk : "sk" = name
      · subst hsk
        exact .cons ⟨rfl, rfl, by simp⟩ .nil
      · simp [declarationsOf, settled, shuffled, hK, hsk]
  have h : settled.Rearranges shuffled := by
    refine ⟨fun role => ?_, fun m => ?_, fun d => ?_, hkeys⟩
    · simp only [settled, shuffled, List.mem_cons, List.not_mem_nil, or_false]
      tauto
    · simp only [settled, shuffled, List.mem_cons, List.not_mem_nil, or_false]
      tauto
    · simp only [settled, shuffled, List.mem_cons, List.not_mem_nil, or_false]
      tauto
  obtain ⟨a, b, others, others', last, verdict, ha, hb, hreport, hreport', -, -, hperm, -⟩ :=
    analyze_rearranged {} hp h
  exact ⟨hp, h, a, b, others, others', last, verdict, ha, hb, hreport, hreport', hperm⟩

end Protocol

end Wiretap
