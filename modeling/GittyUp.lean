import GittyUp.Chain.Answers
import GittyUp.Chain.Requests
import GittyUp.Config.Append
import GittyUp.Config.Layout
import GittyUp.Config.Partial
import GittyUp.Config.RoundTrip
import GittyUp.Http.Fields
import GittyUp.Http.Server
import GittyUp.Meme.Change
import GittyUp.Meme.Counter
import GittyUp.Meme.Handles
import GittyUp.Meme.Links
import GittyUp.Meme.Races
import GittyUp.Prefixes
import GittyUp.Recording
import GittyUp.Rejected
import GittyUp.RouterLocks
import GittyUp.RouterThreads
import GittyUp.Selectors
import GittyUp.Shape
import GittyUp.StaticFiles
import GittyUp.StatusRows
import GittyUp.Config.Partial
