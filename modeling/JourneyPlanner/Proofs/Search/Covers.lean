import JourneyPlanner.Proofs.Search.Rivals

/-!
# Labels that stand in for others

When a search drops a label of a trail, some other label goes on in its place.
`Covers` says how good that one has to be: at the same node it can go on in the
same ways, and off board it is no later and has spent no more. On board it may be
on another run than the one of the trail, later and dearer for a while, as long as
that run keeps up.

> `Covers.replaces`: what takes the place of a label that covers, covers.
> `Covers.step`: wherever the trail goes, a label that covers can go, and covers
> the next label of the trail there.
> `Covers.boundOf_le`: the best that a label that covers can come to is no more
> than what the trail comes to.
-/

namespace JourneyPlanner

/-- Off board: no later than the label of the trail, and for no more money. -/
structure OffBoard (q : Query) (before : List Label) (label : Label) (rest behind : List Label)
    (other : Label) : Prop where
  label_ride : label.ride = none
  ride : other.ride = none
  now : q.direction.NoLater other.now label.now
  pinned : label.pinned = true → other.now = label.now
  price : spent q.graph other behind .price ≤ spent q.graph label before .price
  /-- The next change takes as long for both. -/
  category : (∃ l ∈ label :: rest, l.boarding = true) → other.lastCategory = label.lastCategory

/-- On board of a run that keeps up. -/
structure OnBoard (q : Query) (label : Label) (rest behind : List Label) (other : Label)
    (rival : Rival) : Prop where
  label_ride : label.ride ≠ none
  ride : other.ride = some rival.ride
  now : q.direction.NoLater other.now (rival.last.past q.direction)
  price : spent q.graph other behind .price ≤ rival.paid
  category : other.lastCategory = some (rival.category q.graph.timetable)
  keepsUp : rival.keepsUp q.graph q.direction rest = true

/-- The second label, which has `behind` behind it, can stand in for the first,
which has `before` behind it and `rest` to come. -/
structure Covers (q : Query) (before : List Label) (label : Label) (rest behind : List Label)
    (other : Label) : Prop where
  node : other.node = label.node
  progress : other.progress = label.progress
  boarding : other.boarding = label.boarding
  hotel : other.hotel = true → label.hotel = true
  pinned : other.pinned = label.pinned
  started : q.direction.NoLater label.start other.start
  connected : other.lastConnection.isSome = label.lastConnection.isSome
  boardings : behind.countP (·.boarding) ≤ before.countP (·.boarding)
  vehicle : OffBoard q before label rest behind other ∨
    ∃ rival, OnBoard q label rest behind other rival

/-- A label can go on over an edge, and where it gets it covers `next`. -/
def GoesOn (q : Query) (settings : Settings) (before : List Label) (next : Label)
    (rest behind : List Label) (other : Label) (id : LabelId) (ref : EdgeRef) : Prop :=
  ∃ cost now, Takes q.graph q.direction settings.maxMinutes other ref cost ∧
    Run.timeAfter? other.now cost.time q.direction = some now ∧
    Covers q before next rest (other :: behind) (q.after id other ref cost now)

namespace Covers

variable {q : Query} {settings : Settings} {label other third next last : Label}
  {before behind behind' rest tail : List Label}

/-- Every start label covers itself. -/
theorem start (rest : List Label) {time : Time} (measures : List Measure) :
    Covers q [] (Run.startLabel q measures time) rest [] (Run.startLabel q measures time) :=
  ⟨rfl, rfl, rfl, id, rfl, .refl _ _, rfl, Nat.le_refl _, Or.inl ⟨rfl, rfl, .refl _ _, fun _ => rfl,
    Nat.le_refl _, fun _ => rfl⟩⟩

/-- An edge that the trail takes is there for the other as well. -/
theorem edge_mem (h : Covers q before label rest behind other) {ref : EdgeRef}
    (href : ref ∈ q.graph.edgesAt label.node q.direction) :
    ref ∈ q.graph.edgesAt other.node q.direction := by
  rw [h.node]
  exact href

/-! ## Taking the place of a label that covers -/

/-- What takes the place of a label that covers, covers. -/
theorem replaces (hq : q.Sound) (h : Covers q before label rest behind other)
    (ho : Trail q settings Measure.all (other :: behind))
    (ht : Trail q settings Measure.all (third :: behind')) (hnode : third.node = other.node)
    (hr : Frontier.replaces q.direction third other = true) :
    Covers q before label rest behind' third := by
  obtain ⟨hproper, hcurrent⟩ := ho.proper hq
  obtain ⟨hproper', hcurrent'⟩ := ht.proper hq
  obtain ⟨hprogress, hride, hboarding, hcategory, hhotel, hpinned, hsame, hstart, hnow, hspent⟩ :=
    (Frontier.replaces_iff hproper'.full hproper.full).1 hr
  simp only [hcurrent, hcurrent'] at hspent
  have hconnected : third.lastConnection.isSome = other.lastConnection.isSome :=
    Label.isSome_lastConnection_congr hcategory
  refine ⟨hnode.trans h.node, hprogress.trans h.progress, hboarding.trans h.boarding,
    fun hh => h.hotel (hhotel hh), hpinned.trans h.pinned, h.started.trans hstart,
    hconnected.trans h.connected, ?_, ?_⟩
  · -- as many changes and a vehicle used by both or by neither: no more vehicles boarded
    have hle := hspent .transfers
    have hiff := ht.lastConnection_iff hq
    have hiff' := ho.lastConnection_iff hq
    rw [hconnected, hiff'] at hiff
    have hbehind := h.boardings
    simp only [spent] at hle
    omega
  · rcases h.vehicle with hoff | ⟨rival, hon⟩
    · refine Or.inl ⟨hoff.label_ride, hride.trans hoff.ride, hnow.trans hoff.now, fun hp => ?_,
        Nat.le_trans (hspent .price) hoff.price, fun hb => hcategory.trans (hoff.category hb)⟩
      rw [hsame (by rw [hpinned, h.pinned]; exact hp)]
      exact hoff.pinned hp
    · exact Or.inr ⟨rival, hon.label_ride, hride.trans hon.ride, hnow.trans hon.now,
        Nat.le_trans (hspent .price) hon.price, hcategory.trans hon.category, hon.keepsUp⟩

/-! ## Going where the trail goes -/

/-- After one more edge, the vehicle apart. -/
theorem after (h : Covers q before label (next :: rest) behind other)
    {id id' : LabelId} {ref : EdgeRef} {cost cost' : EdgeCost} {now now' : Time}
    (hconnection : cost'.connection.isSome = cost.connection.isSome)
    (hboarding : cost'.boarding = cost.boarding) (hhotel : cost'.hotel = cost.hotel)
    (hvehicle : OffBoard q (label :: before) (q.after id label ref cost now) rest
        (other :: behind) (q.after id' other ref cost' now') ∨
      ∃ rival, OnBoard q (q.after id label ref cost now) rest (other :: behind)
        (q.after id' other ref cost' now') rival) :
    Covers q (label :: before) (q.after id label ref cost now) rest (other :: behind)
      (q.after id' other ref cost' now') := by
  refine ⟨rfl, ?_, hboarding, ?_, ?_, h.started, ?_, ?_, hvehicle⟩
  · show q.target.advance _ other.progress = q.target.advance _ label.progress
    rw [h.progress]
  · show (other.hotel || cost'.hotel) = true → (label.hotel || cost.hotel) = true
    rw [hhotel, Bool.or_eq_true, Bool.or_eq_true]
    exact Or.imp_left h.hotel
  · show (other.pinned && cost'.connection.isNone) = (label.pinned && cost.connection.isNone)
    rw [h.pinned, ← Option.not_isSome, ← Option.not_isSome, hconnection]
  · show (cost'.connection.or other.lastConnection).isSome =
      (cost.connection.or label.lastConnection).isSome
    rw [Option.isSome_or, Option.isSome_or, hconnection, h.connected]
  · rw [List.countP_cons, List.countP_cons, h.boarding]
    exact Nat.add_le_add_right h.boardings _

/-- Off board the other walks the same way. -/
theorem walk (hq : q.Sound) (h : Covers q before label (next :: rest) behind other)
    (hoff : OffBoard q before label (next :: rest) behind other)
    (hl : Trail q settings Measure.all (label :: before))
    (ho : Trail q settings Measure.all (other :: behind)) {id id' : LabelId} {ref : EdgeRef}
    {cost : EdgeCost} {minutes : Nat} {now now' : Time}
    (hnext : next = q.after id label ref cost now)
    (href : ref ∈ q.graph.edgesAt label.node q.direction)
    (ht : Takes q.graph q.direction settings.maxMinutes label ref cost)
    (ht' : Takes q.graph q.direction settings.maxMinutes other ref { cost with time := minutes })
    (hnow : Run.timeAfter? label.now cost.time q.direction = some now)
    (hnow' : Run.timeAfter? other.now minutes q.direction = some now')
    (hconnection : cost.connection = none) (hride : cost.ride = none)
    (hno : q.direction.NoLater now' now) (hsame : label.pinned = true → now' = now) :
    Covers q (label :: before) (q.after id label ref cost now) rest (other :: behind)
      (q.after id' other ref { cost with time := minutes } now') := by
  have href' := h.edge_mem href
  refine h.after rfl rfl rfl (Or.inl ⟨hride, hride, hno, fun hp => hsame ?_, ?_, fun hb => ?_⟩)
  · exact (Bool.and_eq_true_iff.1 hp).1
  · rw [spent_after hq _ hl href ht hnow, spent_after hq _ ho href' ht' hnow']
    exact Nat.add_le_add_right hoff.price _
  · have hlast := hoff.category (by
      rw [hnext]
      obtain ⟨l, hl, hb⟩ := hb
      exact ⟨l, List.mem_cons_of_mem _ hl, hb⟩)
    unfold Label.lastCategory at hlast ⊢
    rw [lastConnection_after, lastConnection_after, hconnection]
    exact hlast

/-- Someone who covers can take any edge that leads no vehicle on. -/
theorem step_offBoard (hq : q.Sound) (h : Covers q before label (next :: rest) behind other)
    (hoff : OffBoard q before label (next :: rest) behind other)
    (hl : Trail q settings Measure.all (label :: before))
    (ho : Trail q settings Measure.all (other :: behind)) {id : LabelId} (id' : LabelId)
    {ref : EdgeRef} {cost : EdgeCost} {now : Time} (hnext : next = q.after id label ref cost now)
    (href : ref ∈ q.graph.edgesAt label.node q.direction)
    (ht : Takes q.graph q.direction settings.maxMinutes label ref cost)
    (hnow : Run.timeAfter? label.now cost.time q.direction = some now)
    (hboarding : label.boarding = false) :
    GoesOn q settings (label :: before) next rest behind other id' ref := by
  have hfoot : other.OnFoot := ⟨hoff.ride, h.boarding.trans hboarding⟩
  -- where the edge takes both the same time
  have hfixed : cost.connection = none → cost.ride = none →
      Takes q.graph q.direction settings.maxMinutes other ref cost →
      GoesOn q settings (label :: before) next rest behind other id' ref := by
    intro hconnection hride ht'
    obtain ⟨now', hnow', hno⟩ := timeAfter?_mono hoff.now hnow
    refine ⟨cost, now', ht', hnow', ?_⟩
    rw [hnext]
    refine h.walk hq hoff hl ho hnext href ht ht' hnow hnow' hconnection hride hno fun hp => ?_
    rw [hoff.pinned hp, hnow] at hnow'
    exact (Option.some.inj hnow').symm
  cases ht with
  | access hkind _ => exact hfixed rfl rfl (.access hkind hfoot)
  | foot duration price hkind _ => exact hfixed rfl rfl (.foot duration price hkind hfoot)
  | mumo ride time hkind _ htime hpinned =>
    cases hp : label.pinned with
    | true =>
      refine hfixed rfl rfl (.mumo ride time hkind hfoot ?_ fun _ => hpinned hp)
      rw [hoff.pinned hp]
      exact htime
    | false =>
      have hday : ride.InDay := (hq.graph.fits href).1.inDay hkind
      obtain ⟨time', now', htime', hnow', hno⟩ := Mumo.time?_mono hday hoff.now htime hnow
      have ht' : Takes q.graph q.direction settings.maxMinutes other ref
          { time := time', price := ride.price } := by
        refine .mumo ride time' hkind hfoot htime' fun hp' => ?_
        rw [h.pinned, hp] at hp'
        cases hp'
      refine ⟨_, now', ht', hnow', ?_⟩
      rw [hnext]
      exact h.walk hq hoff hl ho hnext href (.mumo ride time hkind ‹_› htime hpinned) ht' hnow hnow'
        rfl rfl hno fun hp' => by rw [hp] at hp'; cases hp'
  | hotel stay hkind _ hfirst hpinned =>
    have hday : stay.checkout < Time.perDay := (hq.graph.fits href).1.checkout_lt hkind
    obtain ⟨now', hnow', hno⟩ := Hotel.stay_mono hday hoff.now hnow
    have ht' : Takes q.graph q.direction settings.maxMinutes other ref
        { time := stay.stay other.now q.direction, price := stay.price, hotel := true } := by
      refine .hotel stay hkind hfoot ?_ (h.pinned.trans hpinned)
      cases hh : other.hotel with
      | false => rfl
      | true =>
        rw [h.hotel hh] at hfirst
        cases hfirst
    refine ⟨_, now', ht', hnow', ?_⟩
    rw [hnext]
    exact h.walk hq hoff hl ho hnext href (.hotel stay hkind ‹_› hfirst hpinned) ht' hnow hnow'
      rfl rfl hno fun hp' => by rw [hpinned] at hp'; cases hp'
  | egress ride hkind hride =>
    rw [hoff.label_ride] at hride
    cases hride
  | stay eid legs ride event hid hkind hride hat hahead =>
    rw [hoff.label_ride] at hride
    cases hride
  | through trips ride trip hkind hride htrip =>
    rw [hoff.label_ride] at hride
    cases hride
  | board eid legs event hid hkind hride hb hfind =>
    rw [hboarding] at hb
    cases hb

/-- Whoever covers and rides a run that keeps up over a section goes on doing so. -/
theorem ride (hq : q.Sound) (h : Covers q before label (next :: rest) behind other)
    (ho : Trail q settings Measure.all (other :: behind)) (id id' : LabelId) {eid : EdgeId}
    {legs : Array Leg} {own event : Event} {transfer transfer' : Bool} {now : Time} {rival : Rival}
    (href : EdgeRef.timetable eid ∈ q.graph.edgesAt label.node q.direction)
    (hkind : (q.graph.edge (.timetable eid)).kind = .route legs)
    (hat : Event.at? legs event.trip event.day = some event)
    (ht : Takes q.graph q.direction settings.maxMinutes other (.timetable eid)
      (q.graph.timetable.rideCost eid event other.now transfer' q.direction))
    (hday : event.day < q.graph.timetable.period.days)
    (hahead : event.isAhead other.now q.direction = true)
    (hrival : rival.ride = { trip := event.trip, day := event.day } ∧ rival.last = event)
    (hprice : spent q.graph other behind .price + (q.graph.timetable.info event.leg.info).price ≤
      rival.paid)
    (hkeeps : rival.keepsUp q.graph q.direction rest = true) :
    ∃ now', Run.timeAfter? other.now (event.span other.now q.direction) q.direction = some now' ∧
      Covers q (label :: before)
        (q.after id label (.timetable eid)
          (q.graph.timetable.rideCost eid own label.now transfer q.direction) now) rest
        (other :: behind)
        (q.after id' other (.timetable eid)
          (q.graph.timetable.rideCost eid event other.now transfer' q.direction) now') := by
  have href' := h.edge_mem href
  have hnow' : Run.timeAfter? other.now (event.span other.now q.direction) q.direction =
      some (event.past q.direction) :=
    Event.timeAfter?_span (hq.graph.departure_le href hkind hat).2
      (hq.graph.arrival_le href hkind hat hday) hahead
  refine ⟨_, hnow', h.after rfl rfl rfl (Or.inr ⟨rival, ?_⟩)⟩
  refine ⟨Option.some_ne_none _, ?_, ?_, ?_, ?_, hkeeps⟩
  · rw [hrival.1]
    rfl
  · rw [hrival.2]
    exact .refl _ _
  · rw [spent_after hq _ ho href' ht hnow']
    exact hprice
  · unfold Rival.category
    rw [hrival.2]
    rfl

/-- Whoever covers from on board stays on board as long as the label does. -/
theorem step_onBoard (hq : q.Sound) (h : Covers q before label (next :: rest) behind other)
    {rival : Rival} (hon : OnBoard q label (next :: rest) behind other rival)
    (htrail : Trail q settings Measure.all (next :: label :: before))
    (hl : Trail q settings Measure.all (label :: before))
    (ho : Trail q settings Measure.all (other :: behind)) {id : LabelId} (id' : LabelId)
    {ref : EdgeRef} {cost : EdgeCost} {now : Time} (hnext : next = q.after id label ref cost now)
    (href : ref ∈ q.graph.edgesAt label.node q.direction)
    (ht : Takes q.graph q.direction settings.maxMinutes label ref cost)
    (hnow : Run.timeAfter? label.now cost.time q.direction = some now) :
    GoesOn q settings (label :: before) next rest behind other id' ref := by
  have hkeeps := hon.keepsUp
  have href' := h.edge_mem href
  subst hnext
  obtain ⟨ride, hride⟩ := Option.ne_none_iff_exists'.1 hon.label_ride
  rcases ht.of_riding hride with ⟨hkind, rfl⟩ |
    ⟨eid, legs, own, rfl, hkind, hown, -, rfl⟩ | ⟨trips, trip, hkind, -, rfl⟩
  · -- both get off
    obtain ⟨hsooner, hpaid, hcategory⟩ := (Rival.keepsUp_egress rfl hkind).1 hkeeps
    have hsame := eq_of_timeAfter?_zero hnow
    have hno : q.direction.NoLater other.now label.now := by
      rw [← hsame]
      exact hon.now.trans hsooner
    obtain ⟨now', hnow', hno'⟩ := timeAfter?_mono hno hnow
    have ht' : Takes q.graph q.direction settings.maxMinutes other ref {} :=
      .egress rival.ride hkind hon.ride
    refine ⟨{}, now', ht', hnow', h.after rfl rfl rfl (Or.inl ⟨rfl, rfl, hno', fun hp => ?_, ?_,
      fun hb => ?_⟩)⟩
    · have hnone := hl.lastConnection_of_pinned (Bool.and_eq_true_iff.1 hp).1
      exact absurd hnone ((hl.placed hq).ridden hon.label_ride)
    · rw [← (htrail.proper hq).2, spent_after hq _ ho href' ht' hnow']
      exact Nat.le_trans hon.price hpaid
    · obtain ⟨l, hmem, hb⟩ := hb
      rcases List.mem_cons.1 hmem with rfl | hmem
      · cases hb
      · exact hon.category.trans (hcategory ⟨l, hmem, hb⟩).symm
  · -- both stay aboard
    obtain ⟨event, hat, hahead, hkeeps⟩ := (Rival.keepsUp_route rfl hkind).1 hkeeps
    have hahead' := Event.isAhead_mono hahead hon.now
    have ht' : Takes q.graph q.direction settings.maxMinutes other (.timetable eid)
        (q.graph.timetable.rideCost eid event other.now false q.direction) :=
      .stay eid legs rival.ride event rfl hkind hon.ride hat hahead'
    have hlt : event.day < q.graph.timetable.period.days := by
      rw [(Event.eq_of_at? hat).2.1]
      exact (ho.riding hq.graph).day_lt rival.ride hon.ride
    obtain ⟨now', hnow', hcovers⟩ := h.ride hq ho id id' href hkind (Event.at?_self hat) ht' hlt
      hahead' ⟨rfl, rfl⟩ (Nat.add_le_add_right hon.price _) hkeeps
    exact ⟨_, now', ht', hnow', hcovers⟩
  · -- both go on in another trip
    obtain ⟨trip', htrip', hkeeps⟩ := (Rival.keepsUp_through rfl hkind).1 hkeeps
    have ht' : Takes q.graph q.direction settings.maxMinutes other ref
        { ride := some { trip := trip', day := rival.ride.day } } :=
      .through trips rival.ride trip' hkind hon.ride htrip'
    have hnow' : Run.timeAfter? other.now 0 q.direction = some other.now :=
      ho.timeAfter?_zero (by rw [hon.ride]; exact Option.some_ne_none _)
    refine ⟨_, other.now, ht', hnow', h.after rfl rfl rfl (Or.inr
      ⟨{ rival with ride := { trip := trip', day := rival.ride.day } },
        Option.some_ne_none _, rfl, hon.now, ?_, hon.category, hkeeps⟩)⟩
    rw [spent_after hq _ ho href' ht' hnow']
    exact hon.price

/-- Where a vehicle is to be boarded, a label that covers may take the place of the
one that it covers, as the search sees it. -/
theorem replaces_label (hq : q.Sound) (h : Covers q before label rest behind other)
    (hoff : OffBoard q before label rest behind other)
    (hl : Trail q settings Measure.all (label :: before))
    (ho : Trail q settings Measure.all (other :: behind)) (hboarding : label.boarding = true) :
    Replaces q.direction other label := by
  refine ⟨h.progress, hoff.ride.trans hoff.label_ride.symm, h.boarding,
    hoff.category ⟨label, List.mem_cons_self, hboarding⟩, h.hotel, h.pinned,
    fun hp => hoff.pinned (h.pinned.symm.trans hp), h.started, hoff.now, fun m => ?_⟩
  rw [(ho.proper hq).2, (hl.proper hq).2]
  cases m with
  | time => exact Direction.distance_mono ho.inOrder.noLater hoff.now h.started
  | transfers => exact Nat.sub_le_sub_right h.boardings 1
  | price => exact hoff.price

/-- Whoever covers boards the same run, or a rival that keeps up with it. -/
theorem step_board (hq : q.Sound) (h : Covers q before label (next :: rest) behind other)
    (hoff : OffBoard q before label (next :: rest) behind other)
    (htrail : Trail q settings Measure.all (rest.reverse ++ next :: label :: before))
    (hl : Trail q settings Measure.all (label :: before))
    (ho : Trail q settings Measure.all (other :: behind)) {id : LabelId} (id' : LabelId)
    {ref : EdgeRef} {cost : EdgeCost} {now : Time} (hnext : next = q.after id label ref cost now)
    (href : ref ∈ q.graph.edgesAt label.node q.direction)
    (ht : Takes q.graph q.direction settings.maxMinutes label ref cost)
    (hnow : Run.timeAfter? label.now cost.time q.direction = some now)
    (hboarding : label.boarding = true) {others : List Label} (hother : other ∈ others)
    (hsafe : label.boardsSafely q.graph q.direction settings.maxMinutes others (next :: rest) =
      true) :
    GoesOn q settings (label :: before) next rest behind other id' ref := by
  subst hnext
  have href' := h.edge_mem href
  obtain ⟨eid, legs, own, rfl, hkind, hfind, rfl⟩ := ht.of_boarding hoff.label_ride hboarding
  have hrep := h.replaces_label hq hoff hl ho hboarding
  obtain ⟨found, hfound⟩ := hrep.exists_boards? hq.graph h.node href hkind hfind
  obtain ⟨-, hat, -, hday, -⟩ := boardable_spec hq.graph href' hkind hfound
  have ht' : Takes q.graph q.direction settings.maxMinutes other (.timetable eid) _ :=
    .board eid legs found rfl hkind hoff.ride (h.boarding.trans hboarding) hfound
  have hpaid : (Rival.boarded q.graph.timetable other found).paid =
      spent q.graph other behind .price + (q.graph.timetable.info found.leg.info).price := by
    rw [← (ho.proper hq).2]
    rfl
  have hkeeps : (Rival.boarded q.graph.timetable other found).keepsUp q.graph q.direction rest =
      true := by
    rcases Rival.keepsUp_of_boardsSafely hsafe rfl hkind hboarding hother
      ((Frontier.replaces_iff (ho.proper hq).1.full (hl.proper hq).1.full).2 hrep) hfind hfound with
      rfl | hkeeps
    · -- a run keeps up with itself
      have hpast := Event.past_of_timeAfter? (hq.graph.departure_le href hkind hat).2
        (isAhead_of_boardable hq.graph href hkind hfind) hnow
      have hself : (q.after id label (.timetable eid) (q.graph.timetable.rideCost eid found
          label.now label.lastConnection.isSome q.direction) now).ride =
          some (Rival.boarded q.graph.timetable other found).ride := rfl
      refine Rival.keepsUp_self hq htrail hself hpast rfl ?_
      rw [hpaid, spent_after hq _ hl href ht hnow]
      exact Nat.add_le_add_right hoff.price _
    · exact hkeeps
  obtain ⟨now', hnow', hcovers⟩ := h.ride hq ho id id' href hkind hat ht' hday
    (isAhead_of_boardable hq.graph href' hkind hfound) ⟨rfl, rfl⟩ (Nat.le_of_eq hpaid.symm) hkeeps
  exact ⟨_, now', ht', hnow', hcovers⟩

/-- Wherever the trail goes, a label that covers can go, and covers the next label
of the trail there. -/
theorem step (hq : q.Sound) (h : Covers q before label (next :: rest) behind other)
    (htrail : Trail q settings Measure.all (rest.reverse ++ next :: label :: before))
    (hl : Trail q settings Measure.all (label :: before))
    (ho : Trail q settings Measure.all (other :: behind)) {id : LabelId} (id' : LabelId)
    {ref : EdgeRef} (href : ref ∈ q.graph.edgesAt label.node q.direction)
    (hnext : Run.expandEdge q settings id label ref = .ok (some next)) {others : List Label}
    (hother : other ∈ others)
    (hsafe : label.boardsSafely q.graph q.direction settings.maxMinutes others (next :: rest) =
      true) :
    GoesOn q settings (label :: before) next rest behind other id' ref := by
  obtain ⟨cost, now, ht, hnow, heq⟩ := expandEdge_eq_some_iff.1 hnext
  rcases h.vehicle with hoff | ⟨rival, hon⟩
  · cases hb : label.boarding with
    | true => exact h.step_board hq hoff htrail hl ho id' heq href ht hnow hb hother hsafe
    | false => exact h.step_offBoard hq hoff hl ho id' heq href ht hnow hb
  · exact h.step_onBoard hq hon htrail.suffix hl ho id' heq href ht hnow

/-! ## What is still to come -/

/-- The best that a label that covers can come to is no more than what the trail
comes to. -/
theorem boundOf_le (hq : q.Sound) (h : Covers q before label rest behind other)
    (htrail : Trail q settings Measure.all (last :: tail))
    (hgoal : q.target.isGoal last = true) (hsplit : rest.reverse ++ label :: before = last :: tail)
    (horder : other.InOrder q.direction)
    (hconnected : other.lastConnection.isSome = true ↔ 0 < behind.countP (·.boarding))
    (m : Measure) :
    Criterion.boundOf q.bounds other.context m (spent q.graph other behind m) ≤
      spent q.graph last tail m := by
  obtain ⟨htime, hprice, hboardings⟩ := htrail.within hq hgoal hsplit
  have hboth : q.Within LowerBounds.minutesOf label.node other.travelTime
        (spent q.graph last tail .time) ∧
      q.Within (LowerBounds.priceOf q.graph.timetable) label.node
        (spent q.graph other behind .price) (spent q.graph last tail .price) := by
    rcases h.vehicle with hoff | ⟨rival, hon⟩
    · exact ⟨htime.mono (Direction.distance_mono horder.noLater hoff.now h.started),
        hprice.mono hoff.price⟩
    · exact Rival.within hq htrail hgoal hsplit hon.label_ride hon.keepsUp hon.now horder.noLater
        h.started hon.price
  rw [← h.node] at hboth hboardings
  cases m with
  | time => exact boundOf_time_le hq hboth.1
  | price => exact boundOf_price_le hq hboth.2
  | transfers =>
    refine boundOf_transfers_le hq ?_ hconnected (hboardings.mono ?_)
    · -- the goal is not out of reach, since the trail goes there
      have hl : Trail q settings Measure.all (label :: before) := by
        rw [← hsplit] at htrail
        exact htrail.suffix
      have hc := lowerBound_ne_ceiling hl.not_isBeyond (c := Criterion.make q.bounds label.context
        .transfers (spent q.graph label before .transfers)) (by
          rw [hl.criteria_eq hq]
          exact List.mem_map_of_mem (Measure.mem_all _))
      intro hreach
      refine hc ?_
      have hreach' : q.bounds.boardingsAt label.node = Bounded.ceiling := by
        rw [← h.node]
        exact hreach
      show Criterion.transferBound q.bounds label.context _ = _
      unfold Criterion.transferBound
      exact if_pos hreach'
    · rw [List.countP_cons, ← h.boarding]
      have := h.boardings
      show behind.countP (·.boarding) + other.boarding.toNat ≤ _
      cases other.boarding <;> simp <;> omega

end Covers

end JourneyPlanner
