import Wiring.Proofs.Synthesis.Scripts

/-!
# Connections in parts and in another order

Connecting to destinations depends on the channels that are known only through which of
them there are, `connectAll_congr`, so it can be done in two parts: for the second part the
channels of the first are known, `connectAll_append`, or the model has them.  When no two
destinations share a channel, connecting to them in another order makes the same
operations in another order, `perm_connectAll`.
-/

namespace Wiring.Synthesis

variable {s s' : Synthesis} {source : ComponentPath} {known known' : List ChannelId}
  {pairs others : List (String × Destination)}

theorem channelFor_congr (hsettings : s.settings = s'.settings) :
    s.channelFor = s'.channelFor := by
  funext d
  rw [channelFor, channelFor, node, node, hsettings]

theorem connect_congr (hsettings : s.settings = s'.settings) {port : String} {d : Destination}
    (hthere : s.model.has (.channel (s.channelFor d)) = true ∨ s.channelFor d ∈ known ↔
      s'.model.has (.channel (s.channelFor d)) = true ∨ s.channelFor d ∈ known') :
    s.connect source known port d = s'.connect source known' port d := by
  rw [channelFor_congr hsettings] at hthere
  by_cases h : s'.model.has (.channel (s'.channelFor d)) = true ∨ s'.channelFor d ∈ known'
  · rw [connect_of_there h, connect_of_there, channelFor_congr hsettings]
    rw [channelFor_congr hsettings]
    exact hthere.2 h
  · rw [connect_of_new h, connect_of_new, channelFor_congr hsettings, hsettings]
    rw [channelFor_congr hsettings]
    exact fun hthere' => h (hthere.1 hthere')

/-- Connecting depends on which channels there are, in the model or known. -/
theorem connectAll_congr (hsettings : s.settings = s'.settings)
    (hthere : ∀ channel, s.model.has (.channel channel) = true ∨ channel ∈ known ↔
      s'.model.has (.channel channel) = true ∨ channel ∈ known')
    (pairs : List (String × Destination)) :
    s.connectAll source known pairs = s'.connectAll source known' pairs := by
  induction pairs generalizing known known' with
  | nil => rfl
  | cons pair pairs ih =>
    rw [connectAll, connectAll, connect_congr hsettings (hthere _), ih]
    intro channel
    rw [List.mem_append, ← or_assoc, hthere, List.mem_append, ← or_assoc,
      channelFor_congr hsettings]

/-- Connecting in two parts: in the second part the channels of the first are known. -/
theorem connectAll_append (s : Synthesis) (source : ComponentPath) (known : List ChannelId)
    (pairs others : List (String × Destination)) :
    s.connectAll source known (pairs ++ others) =
      s.connectAll source known pairs ++
        s.connectAll source (known ++ pairs.map fun pair => s.channelFor pair.2) others := by
  induction pairs generalizing known with
  | nil => simp [connectAll]
  | cons pair pairs ih =>
    rw [List.cons_append, connectAll, ih, connectAll, List.map_cons, List.append_assoc,
      List.append_assoc, List.singleton_append]

/-- After connecting there are the channels of all destinations. -/
theorem mem_addedChannels_connectAll (s : Synthesis) (source : ComponentPath)
    (known : List ChannelId) (pairs : List (String × Destination)) (channel : ChannelId) :
    (s.model.has (.channel channel) = true ∨ channel ∈ known) ∨
        channel ∈ (s.connectAll source known pairs).addedChannels ↔
      (s.model.has (.channel channel) = true ∨ channel ∈ known) ∨
        channel ∈ pairs.map fun pair => s.channelFor pair.2 := by
  induction pairs generalizing known with
  | nil => exact Iff.rfl
  | cons pair pairs ih =>
    have hrest := ih (known ++ [s.channelFor pair.2])
    rw [List.mem_append, List.mem_singleton, ← or_assoc] at hrest
    rw [connectAll, Script.addedChannels_append, List.mem_append, List.map_cons, List.mem_cons,
      ← or_assoc (b := channel = s.channelFor pair.2), ← hrest, addedChannels_connect]
    -- What the first connection creates is the channel that is known from then on.
    split
    · rename_i hthere
      have hchannel : s.model.has (.channel (s.channelFor pair.2)) = true ∨
          s.channelFor pair.2 ∈ known := by simpa [Model.has] using hthere
      constructor
      · rintro (hbefore | hadded)
        · exact Or.inl (Or.inl hbefore)
        · exact Or.inr (hadded.resolve_left List.not_mem_nil)
      · rintro ((hbefore | rfl) | hadded)
        · exact Or.inl hbefore
        · exact Or.inl hchannel
        · exact Or.inr (Or.inr hadded)
    · rw [List.mem_singleton, ← or_assoc]

/-! ## Another order -/

/-- No two destinations of pairs share a channel. -/
def Unshared (s : Synthesis) (pairs : List (String × Destination)) : Prop :=
  ∀ pair ∈ pairs, ∀ other ∈ pairs, s.channelFor pair.2 = s.channelFor other.2 →
    pair.2 = other.2

theorem Unshared.of_subset (h : s.Unshared pairs) (hsubset : others ⊆ pairs) :
    s.Unshared others :=
  fun pair hpair other hother => h pair (hsubset hpair) other (hsubset hother)

/-- Two connections can be made in either order, unless their destinations share a
channel. -/
theorem perm_connect_connect {port port' : String} {d d' : Destination}
    (hunshared : s.channelFor d = s.channelFor d' → d = d') :
    (s.connect source known port d ++
        s.connect source (known ++ [s.channelFor d]) port' d').Perm
      (s.connect source known port' d' ++
        s.connect source (known ++ [s.channelFor d']) port d) := by
  by_cases hsame : s.channelFor d = s.channelFor d'
  · obtain rfl := hunshared hsame
    have hknown : s.model.has (.channel (s.channelFor d)) = true ∨
        s.channelFor d ∈ known ++ [s.channelFor d] := Or.inr (by simp)
    rw [connect_of_there hknown, connect_of_there hknown]
    by_cases hthere : s.model.has (.channel (s.channelFor d)) = true ∨ s.channelFor d ∈ known
    · rw [connect_of_there hthere, connect_of_there hthere]
      exact List.Perm.swap _ _ _
    · -- Whichever comes first creates the channel and binds the destination.
      rw [connect_of_new hthere, connect_of_new hthere]
      exact ((List.Perm.swap _ _ _).cons _).cons _
  · -- The channel of one says nothing about that of the other.
    have hd : s.connect source (known ++ [s.channelFor d']) port d =
        s.connect source known port d := connect_congr rfl (by simp [hsame])
    have hd' : s.connect source (known ++ [s.channelFor d]) port' d' =
        s.connect source known port' d' := connect_congr rfl (by simp [Ne.symm hsame])
    rw [hd, hd']
    exact List.perm_append_comm

/-- Destinations that share no channels can be connected in any order. -/
theorem perm_connectAll (hperm : pairs.Perm others) (hunshared : s.Unshared pairs) :
    (s.connectAll source known pairs).Perm (s.connectAll source known others) := by
  induction hperm generalizing known with
  | nil => exact List.Perm.refl _
  | cons pair hperm ih =>
    rw [connectAll, connectAll]
    exact (ih (hunshared.of_subset (List.subset_cons_self _ _))).append_left _
  | swap pair other rest =>
    have hpair : s.channelFor other.2 = s.channelFor pair.2 → other.2 = pair.2 :=
      hunshared other (by simp) pair (by simp)
    have hrest : s.connectAll source (known ++ [s.channelFor other.2] ++ [s.channelFor pair.2])
        rest = s.connectAll source
          (known ++ [s.channelFor pair.2] ++ [s.channelFor other.2]) rest := by
      refine connectAll_congr rfl (fun channel => ?_) rest
      simp only [List.mem_append, List.mem_singleton, or_assoc,
        or_comm (a := channel = s.channelFor other.2)]
    simp only [connectAll]
    rw [hrest, ← List.append_assoc, ← List.append_assoc]
    exact (perm_connect_connect hpair).append_right _
  | trans hfirst _ ih ih' =>
    exact (ih hunshared).trans (ih' (hunshared.of_subset hfirst.symm.subset))

end Wiring.Synthesis
