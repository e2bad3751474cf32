import Hstr.Lib.Runs
import Hstr.Lib.Lines
import Hstr.Lib.Buckets
import Hstr.Lib.Dedup
import Hstr.Strings
import Hstr.Hashset
import Hstr.Radixsort
import Hstr.Regexp
import Hstr.Favorites
import Hstr.Utils
import Hstr.Readline
import Hstr.History
import Hstr.Coherence
import Hstr.Ranking
import Hstr.Selection
import Hstr.Blacklist
import Hstr.Box
import Hstr.Loop
import Hstr.Query
import Hstr.Highlight
import Hstr.Main
import Hstr.Lib.Search
import Hstr.Lookup
import Hstr.Lib.Prune
import Hstr.Removal
import Hstr.LastEntry
import Hstr.Bounds
import Hstr.RawView
import Hstr.Offsets
import Hstr.Sharing
import Hstr.FirstWrite
import Hstr.Lib.Checked
import Hstr.Metafied
import Hstr.Lib.Utf8
import Hstr.ZshLine
import Hstr.Columns
import Hstr.Typing
import Hstr.Lib.Fitting
import Hstr.Pieces
import Hstr.Elide
import Hstr.ElideLoops
import Hstr.ElideSafe
import Hstr.ElideText
import Hstr.ElideBytes
import Hstr.Lib.Recency
import Hstr.FavoritesOrder
import Hstr.Cursor
import Hstr.Layout
import Hstr.Notification
import Hstr.BlacklistRounds
import Hstr.Capacity
import Hstr.Listing
import Hstr.FavoritesReload
import Hstr.Cmdline
import Hstr.Lib.Simulation
import Hstr.Stores
import Hstr.Session
import Hstr.Screen
import Hstr.Uncached
import Hstr.Lib.Utf8Map
import Hstr.LineEditor
import Hstr.Handover
import Hstr.Lifetime
import Hstr.Deletions
import Hstr.Lib.Utf8Find
import Hstr.Painting
import Hstr.Display
import Hstr.Labels
import Hstr.Config
import Hstr.InPlace
import Hstr.Window
import Hstr.ItemRows
import Hstr.Narrowing
import Hstr.Walking
