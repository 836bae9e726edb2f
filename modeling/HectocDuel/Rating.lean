/-
  Ratings of players.

  The winner of a duel gains points and the loser gives them up, the fewer the
  likelier the result was.  Points are whole and no rating falls below zero.

  * `expectedScore` is the probability of a win;
  * `newRatings` are the ratings after a duel.

  Both depend on the power of ten alone among the functions that doubles do not
  have exactly, so they are stated for any such function first.
-/
import HectocDuel.Decimal.Binary

namespace HectocDuel.Rating

/-- The rating of a player without a finished duel. -/
def initial : Int :=
  400

/-- The most points that change hands in a duel. -/
def stake : Float :=
  32.0

/-- The probability that a player with the first rating beats one with the
    second, for a given function `x ↦ 10 ^ x`. -/
def expectedScoreWith (power : Float → Float) (rating opponent : Int) : Float :=
  1.0 / (1.0 + power (Float.ofInt (opponent - rating) / 400.0))

/-- The points that change hands. -/
def deltaWith (power : Float → Float) (winner loser : Int) : Int :=
  Decimal.nearestInt (stake * (1.0 - expectedScoreWith power winner loser))

/-- The ratings of winner and loser after a duel. -/
def newRatingsWith (power : Float → Float) (winner loser : Int) : Int × Int :=
  let delta := deltaWith power winner loser
  (max (winner + delta) 0, max (loser - delta) 0)

/-- The power of ten. -/
def powerOfTen (x : Float) : Float :=
  Float.pow 10.0 x

/-- The probability that a player with the first rating beats one with the
    second. -/
def expectedScore (rating opponent : Int) : Float :=
  expectedScoreWith powerOfTen rating opponent

/-- The ratings of winner and loser after a duel. -/
def newRatings (winner loser : Int) : Int × Int :=
  newRatingsWith powerOfTen winner loser

end HectocDuel.Rating
