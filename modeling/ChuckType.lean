import ChuckType.Frame
import ChuckType.Scope
import ChuckType.Lookup
import ChuckType.Run
import ChuckType.Transaction
import ChuckType.Namespace
import ChuckType.Block
import ChuckType.Abstract
import ChuckType.Listing
import ChuckType.RefCount
import ChuckType.Placeholder
